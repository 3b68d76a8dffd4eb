import Mathlib

/-!
Rounding to a double.

A double that is not zero is a significand of at most 53 bits times a power of two. Rounding a
longer significand shifts it right and raises the exponent accordingly, so the exponent of the
result is bounded by the length of what was rounded (`roundWithAccuracy_within`). A significand that
fills 53 bits and more stays one that does (`roundWithAccuracy_reaches`), unless the exponent gets
too small. Packing a rounded result into a double keeps both bounds, as long as the exponent does
not get too large (`repack_within`, `repack_reaches`).
-/

namespace SuiteMetrics.Decimal

open Float.Model (Format UnpackedFloat totalExponent)
open Float.Model.UnpackedFloat

/-! ### Bounds -/

/-- The double is zero, or its significand has at most 53 bits and its exponent is bounded. -/
inductive Within (bound : Int) : UnpackedFloat → Prop where
  | zero (s : Sign) : Within bound (.zero s)
  | finite {s : Sign} {m : Nat} {e : Int} {pos : 0 < m} (short : m < 2 ^ 53) (le : e ≤ bound) :
    Within bound (.finite s m e pos)

/-- The double is positive, and if it is finite its significand has exactly 53 bits and its exponent
is bounded from below. -/
inductive Reaches (bound : Int) : UnpackedFloat → Prop where
  | infinity : Reaches bound (.infinity .positive)
  | finite {m : Nat} {e : Int} {pos : 0 < m} (full : m.log2 = 52) (le : bound ≤ e) :
    Reaches bound (.finite .positive m e pos)

theorem Within.mono {a b : Int} {f : UnpackedFloat} (h : Within a f) (le : a ≤ b) : Within b f := by
  cases h with
  | zero s => exact .zero s
  | finite short small => exact .finite short (small.trans le)

theorem Reaches.mono {a b : Int} {f : UnpackedFloat} (h : Reaches b f) (le : a ≤ b) :
    Reaches a f := by
  cases h with
  | infinity => exact .infinity
  | finite full large => exact .finite full (le.trans large)

theorem Within.isFinite {bound : Int} {f : UnpackedFloat} (h : Within bound f) :
    f.isFinite = true := by
  cases h with
  | zero s => rfl
  | finite short le => rfl

/-! ### Shifting -/

theorem mantissa_shiftRight (em : ExtendedMantissa) (k : Nat) :
    (em >>> k).mantissa = em.mantissa / 2 ^ k := by
  induction k with
  | zero => exact (Nat.div_one _).symm
  | succ k ih =>
      change (em >>> k).mantissa / 2 = _
      rw [ih, Nat.div_div_eq_div_mul, ← Nat.pow_succ]

theorem mantissa_ofMantissaAndAccuracy (m : Nat) (accuracy : Accuracy) :
    (ExtendedMantissa.ofMantissaAndAccuracy m accuracy).mantissa = m := by
  rcases accuracy with _ | _ | _ | _
  · rfl
  · rfl
  · rfl
  · rfl

/-- Rounding leaves a significand as it is or moves it to the next one. -/
theorem roundedMantissa_bounds (em : ExtendedMantissa) :
    em.mantissa ≤ em.roundedMantissa ∧ em.roundedMantissa ≤ em.mantissa + 1 := by
  rw [ExtendedMantissa.roundedMantissa]
  rcases em.accuracy with _ | _ | _ | _
  · exact ⟨le_refl _, Nat.le_succ _⟩
  · exact ⟨le_refl _, Nat.le_succ _⟩
  · have parity : em.mantissa % 2 < 2 := Nat.mod_lt _ Nat.two_pos
    change em.mantissa ≤ em.mantissa + em.mantissa % 2 ∧ _ ≤ _
    exact ⟨Nat.le_add_right _ _, Nat.add_le_add_left (Nat.lt_succ_iff.mp parity) _⟩
  · exact ⟨Nat.le_succ _, le_refl _⟩

/-- The exponent that a significand and an exponent are shifted to. -/
theorem targetExponent_eq (m : Nat) (e : Int) :
    Format.binary64.targetExponent (totalExponent m e) = max (m.log2 + e - 52) (-1074) := by
  have shape : Format.binary64.targetExponent (totalExponent m e) =
      max ((m.log2 : Int) + 1 + e - 53) (-1074) := rfl
  rw [shape]
  omega

/-- The significand after a shift to the target exponent. -/
theorem mantissa_shiftToTargetExponent (m : Nat) (e : Int) (accuracy : Accuracy) :
    (shiftToTargetExponent .binary64 m e accuracy).1.mantissa =
      m / 2 ^ (max (m.log2 + e - 52) (-1074) - e).toNat := by
  rw [shiftToTargetExponent, shiftToExponent, targetExponent_eq]
  dsimp only
  rw [mantissa_shiftRight, mantissa_ofMantissaAndAccuracy]

/-- The exponent after a shift to the target exponent. -/
theorem exponent_shiftToTargetExponent (m : Nat) (e : Int) (accuracy : Accuracy) :
    (shiftToTargetExponent .binary64 m e accuracy).2 =
      max e (max (m.log2 + e - 52) (-1074)) := by
  rw [shiftToTargetExponent, shiftToExponent, targetExponent_eq]
  dsimp only
  omega

theorem log2_lt_of_lt {m p : Nat} (h : m < 2 ^ p) (pos : 0 < p) : m.log2 < p := by
  rcases Nat.eq_zero_or_pos m with rfl | hm
  · exact pos
  · exact (Nat.log2_lt hm.ne').mpr h

/-- A shifted significand has at most 53 bits. -/
theorem mantissa_shiftToTargetExponent_lt (m : Nat) (e : Int) (accuracy : Accuracy) :
    (shiftToTargetExponent .binary64 m e accuracy).1.mantissa < 2 ^ 53 := by
  rw [mantissa_shiftToTargetExponent]
  have enough : m.log2 - 52 ≤ (max ((m.log2 : Int) + e - 52) (-1074) - e).toNat := by omega
  refine Nat.div_lt_of_lt_mul (lt_of_lt_of_le Nat.lt_log2_self ?_)
  rw [← Nat.pow_add]
  exact Nat.pow_le_pow_right Nat.two_pos (by omega)

/-- The exponent of a shifted significand of bounded length. -/
theorem exponent_shiftToTargetExponent_le {m p : Nat} (hm : m < 2 ^ p) (pos : 0 < p) (e : Int)
    (accuracy : Accuracy) :
    (shiftToTargetExponent .binary64 m e accuracy).2 ≤ max e (max (e + p - 53) (-1074)) := by
  rw [exponent_shiftToTargetExponent]
  have length := log2_lt_of_lt hm pos
  omega

/-- A significand that fills 53 bits still does after a shift, and the exponent does not fall. -/
theorem shiftToTargetExponent_reaches {m : Nat} {e : Int} (hm : 2 ^ 52 ≤ m) (he : -1074 ≤ e)
    (accuracy : Accuracy) :
    2 ^ 52 ≤ (shiftToTargetExponent .binary64 m e accuracy).1.mantissa ∧
      e ≤ (shiftToTargetExponent .binary64 m e accuracy).2 := by
  have pos : m ≠ 0 := (lt_of_lt_of_le (Nat.two_pow_pos 52) hm).ne'
  have long : 52 ≤ m.log2 := (Nat.le_log2 pos).mpr hm
  have shift : (max ((m.log2 : Int) + e - 52) (-1074) - e).toNat = m.log2 - 52 := by omega
  rw [mantissa_shiftToTargetExponent, exponent_shiftToTargetExponent, shift]
  refine ⟨?_, le_max_left _ _⟩
  rw [Nat.le_div_iff_mul_le (Nat.two_pow_pos _), ← Nat.pow_add, Nat.add_sub_cancel' long]
  exact Nat.log2_self_le pos

/-! ### Rounding -/

theorem roundWithAccuracy_eq (s : Sign) (m : Nat) (e : Int) (accuracy : Accuracy) :
    roundWithAccuracy .binary64 s m e accuracy =
      let first := shiftToTargetExponent .binary64 m e accuracy
      let last := shiftToTargetExponent .binary64 first.1.roundedMantissa first.2 .exact
      if h : last.1.mantissa = 0 then .zero s
      else .finite s last.1.mantissa last.2 (Nat.pos_of_ne_zero h) := rfl

/-- What is rounded to a double has an exponent bounded by the length of what was rounded. -/
theorem roundWithAccuracy_within {m p : Nat} (hm : m < 2 ^ p) (long : 53 ≤ p) (s : Sign) (e : Int)
    (accuracy : Accuracy) :
    Within (max (e + p - 52) (-1073)) (roundWithAccuracy .binary64 s m e accuracy) := by
  rw [roundWithAccuracy_eq]
  dsimp only
  have first := exponent_shiftToTargetExponent_le hm (by omega) e accuracy
  have short := mantissa_shiftToTargetExponent_lt m e accuracy
  generalize shiftToTargetExponent .binary64 m e accuracy = shifted at first short ⊢
  have rounded : shifted.1.roundedMantissa < 2 ^ 54 := by
    have := (roundedMantissa_bounds shifted.1).2
    omega
  have last := exponent_shiftToTargetExponent_le rounded (by omega) shifted.2 .exact
  split
  case isTrue => exact .zero s
  case isFalse => exact .finite (mantissa_shiftToTargetExponent_lt _ _ _) (by omega)

/-- What fills 53 bits before it is rounded fills them afterwards. -/
theorem roundWithAccuracy_reaches {m : Nat} {e : Int} (hm : 2 ^ 52 ≤ m) (he : -1074 ≤ e)
    (accuracy : Accuracy) :
    Reaches e (roundWithAccuracy .binary64 .positive m e accuracy) := by
  rw [roundWithAccuracy_eq]
  dsimp only
  obtain ⟨full, rise⟩ := shiftToTargetExponent_reaches hm he accuracy
  generalize shiftToTargetExponent .binary64 m e accuracy = shifted at full rise ⊢
  obtain ⟨full', rise'⟩ := shiftToTargetExponent_reaches
    (full.trans (roundedMantissa_bounds shifted.1).1) (he.trans rise) .exact
  split
  case isTrue zero => omega
  case isFalse pos =>
    refine .finite ((Nat.log2_eq_iff pos).mpr ⟨full', ?_⟩) (rise.trans rise')
    exact mantissa_shiftToTargetExponent_lt _ _ _

theorem round_eq (s : Sign) (m : Nat) (e : Int) :
    round .binary64 s m e =
      let shift := (e - max (m.log2 + e - 52) (-1074)).toNat
      roundWithAccuracy .binary64 s (m <<< shift) (e - shift) .exact := by
  rw [UnpackedFloat.round, targetExponent_eq]
  rfl

/-- A number of bounded length is rounded to a double of bounded exponent. -/
theorem round_within {m p : Nat} (hm : m < 2 ^ p) (long : 53 ≤ p) (s : Sign) (e : Int) :
    Within (max (e + p - 52) (-1073)) (round .binary64 s m e) := by
  rw [round_eq]
  dsimp only
  generalize (e - max (m.log2 + e - 52) (-1074)).toNat = shift
  have longer : m <<< shift < 2 ^ (p + shift) := by
    rw [Nat.shiftLeft_eq, Nat.pow_add]
    exact Nat.mul_lt_mul_of_pos_right hm (Nat.two_pow_pos _)
  refine (roundWithAccuracy_within longer (by omega) s _ _).mono ?_
  omega

/-- A number that is not zero is rounded to a double with a full significand. -/
theorem round_reaches {m : Nat} (pos : 0 < m) : Reaches (-52) (round .binary64 .positive m 0) := by
  rw [round_eq]
  dsimp only
  have shift : (0 - max ((m.log2 : Int) + 0 - 52) (-1074)).toNat = 52 - m.log2 := by omega
  rw [shift]
  have full : 2 ^ 52 ≤ m <<< (52 - m.log2) := by
    rw [Nat.shiftLeft_eq]
    calc
      2 ^ 52 ≤ 2 ^ (m.log2 + (52 - m.log2)) := Nat.pow_le_pow_right Nat.two_pos (by omega)
      _ = 2 ^ m.log2 * 2 ^ (52 - m.log2) := Nat.pow_add _ _ _
      _ ≤ m * 2 ^ (52 - m.log2) := Nat.mul_le_mul_right _ (Nat.log2_self_le pos.ne')
  exact (roundWithAccuracy_reaches full (by omega) .exact).mono (by omega)

/-- An integer of bounded length is rounded to a double of bounded exponent. -/
theorem normalize_within {n : Int} {p : Nat} (hn : n.natAbs < 2 ^ p) (long : 53 ≤ p) (e : Int)
    (s : Sign) : Within (max (e + p - 52) (-1073)) (normalize .binary64 n e s) := by
  rw [UnpackedFloat.normalize]
  split
  case h_1 => exact round_within (by omega) long _ e
  case h_2 => exact .zero s
  case h_3 => exact round_within (by omega) long _ e

/-! ### Packing -/

/-- A number as it is read back from its packed form. -/
def repack (f : UnpackedFloat) : UnpackedFloat := unpack .binary64 (pack .binary64 f)

theorem toNat_implicitBit (mantissa : BitVec 52) :
    (1#1 ++ mantissa).toNat = 2 ^ 52 + mantissa.toNat := by
  rw [BitVec.toNat_append, ← Nat.shiftLeft_add_eq_or_of_lt mantissa.isLt]
  rfl

/-- The parts of a packed number decide what it is. -/
theorem unpack_packComponents (s : Sign) (exponent : BitVec 11) (mantissa : BitVec 52) :
    unpack .binary64 (packComponents .binary64 s exponent mantissa) =
      if exponent = -1#11 then if mantissa = 0#52 then .infinity s else .notANumber
      else if exponent = 0#11 then
        if h : mantissa = 0#52 then .zero s
        else .finite s mantissa.toNat (-1074)
          (Nat.pos_of_ne_zero fun zero => h (BitVec.eq_of_toNat_eq zero))
      else .finite s (1#1 ++ mantissa).toNat (exponent.toNat - 1075)
        (by rw [toNat_implicitBit]; omega) := by
  rw [unpack]
  simp only [unpackMantissa_packComponents, unpackExponent_packComponents,
    unpackSign_packComponents, Sign.ofBitVec_toBitVec]
  split
  · rfl
  · split
    case isTrue zero =>
      subst zero
      rfl
    case isFalse => rfl

theorem within_packComponents {s : Sign} {exponent : BitVec 11} (mantissa : BitVec 52)
    (ne : exponent ≠ -1#11) {bound : Int} (low : -1074 ≤ bound)
    (le : exponent.toNat - 1075 ≤ bound) :
    Within bound (unpack .binary64 (packComponents .binary64 s exponent mantissa)) := by
  rw [unpack_packComponents, if_neg ne]
  split
  · split
    · exact .zero s
    · exact .finite (mantissa.isLt.trans (by decide)) low
  · exact .finite (1#1 ++ mantissa).isLt le

/-- What a finite number is packed into. -/
theorem pack_finite (s : Sign) (m : Nat) (e : Int) (pos : 0 < m) :
    pack .binary64 (.finite s m e pos) =
      if 2047 ≤ (e + 1075).toNat then packedInfinity .binary64 s
      else if m.log2 = 52 then
        packComponents .binary64 s (BitVec.ofNat 11 (e + 1075).toNat) (BitVec.ofNat 52 m)
      else packComponents .binary64 s 0#11 (BitVec.ofNat 52 m) := by
  have shape : pack .binary64 (.finite s m e pos) =
      if 2048 ≤ (e + (1023 : Nat) + (52 : Nat)).toNat + 1 then packedInfinity .binary64 s
      else if m.log2 + 1 = 53 then
        packComponents .binary64 s (BitVec.ofNat 11 (e + (1023 : Nat) + (52 : Nat)).toNat)
          (BitVec.ofNat 52 m)
      else packComponents .binary64 s 0#11 (BitVec.ofNat 52 m) := rfl
  have biased : e + (1023 : Nat) + (52 : Nat) = e + 1075 := by omega
  rw [shape, biased]
  simp only [Nat.reduceLeDiff, Nat.reduceEqDiff]

/-- A biased exponent that fits is kept, and is not the one of infinities. -/
theorem toNat_biasedExponent {n : Nat} (fits : ¬ 2047 ≤ n) :
    (BitVec.ofNat 11 n).toNat = n ∧ BitVec.ofNat 11 n ≠ -1#11 := by
  have kept : (BitVec.ofNat 11 n).toNat = n := by
    rw [BitVec.toNat_ofNat]
    omega
  refine ⟨kept, fun h => fits ?_⟩
  have same : n = 2047 := kept.symm.trans (congrArg BitVec.toNat h)
  exact same.ge

/-- A bounded number whose exponent fits stays bounded. -/
theorem repack_within {bound : Int} {f : UnpackedFloat} (h : Within bound f) (low : -1074 ≤ bound)
    (high : bound ≤ 971) : Within bound (repack f) := by
  cases h with
  | zero s =>
      rw [repack, pack, unpack_packedZero]
      exact .zero s
  | @finite s m e pos short le =>
      have fits : ¬ 2047 ≤ (e + 1075).toNat := by omega
      obtain ⟨kept, ne⟩ := toNat_biasedExponent fits
      rw [repack, pack_finite, if_neg fits]
      split
      · exact within_packComponents _ ne low (by omega)
      · exact within_packComponents _ (by decide) low (le_trans (by decide) low)

theorem repack_infinity (s : Sign) : repack (.infinity s) = .infinity s := by
  rw [repack, pack, packedInfinity, unpack_packComponents]
  rfl

/-- A positive number with a full significand keeps both, or is too large for a double. -/
theorem repack_reaches {bound : Int} {f : UnpackedFloat} (h : Reaches bound f)
    (low : -1074 ≤ bound) : Reaches bound (repack f) := by
  cases h with
  | infinity =>
      rw [repack_infinity]
      exact .infinity
  | @finite m e pos full le =>
      rw [repack, pack_finite, if_pos full]
      split
      case isTrue =>
          rw [packedInfinity, unpack_packComponents]
          exact .infinity
      case isFalse fits =>
          obtain ⟨kept, ne⟩ := toNat_biasedExponent fits
          have ne' : BitVec.ofNat 11 (e + 1075).toNat ≠ 0#11 := fun h => by
            have zero : (e + 1075).toNat = 0 := kept.symm.trans (congrArg BitVec.toNat h)
            omega
          have bits := (1#1 ++ BitVec.ofNat 52 m).isLt
          have implicit := toNat_implicitBit (BitVec.ofNat 52 m)
          rw [unpack_packComponents, if_neg ne, if_neg ne']
          exact .finite ((Nat.log2_eq_iff (by omega)).mpr ⟨by omega, bits⟩) (by omega)

/-- The parts of a packed finite number are in the range of doubles. -/
theorem unpack_bounds {b : BitVec Format.binary64.numBits} {s : Sign} {m : Nat} {e : Int}
    {pos : 0 < m} (h : unpack .binary64 b = .finite s m e pos) :
    m < 2 ^ 53 ∧ -1074 ≤ e ∧ e ≤ 971 := by
  rw [← packComponents_unpackSign_unpackExponent_unpackMantissa b, unpack_packComponents] at h
  generalize unpackExponent b = exponent at h
  generalize unpackMantissa b = mantissa at h
  have length : exponent.toNat < 2048 := exponent.isLt
  split at h
  case isTrue =>
      split at h
      · cases h
      · cases h
  case isFalse ne =>
      have top : exponent.toNat ≠ 2047 := fun same => ne (BitVec.eq_of_toNat_eq same)
      split at h
      case isTrue =>
          split at h
          · cases h
          · cases h
            exact ⟨mantissa.isLt.trans (by decide), by decide⟩
      case isFalse ne' =>
          have bottom : exponent.toNat ≠ 0 := fun same => ne' (BitVec.eq_of_toNat_eq same)
          cases h
          exact ⟨(1#1 ++ mantissa).isLt, by omega⟩

end SuiteMetrics.Decimal
