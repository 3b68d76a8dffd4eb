import SuiteMetrics.Proofs.Rounding
import SuiteMetrics.Proofs.TotalOrder

/-!
The exact value of a double.

A finite double stands for a rational number (`value`). It is the same whether the double is taken
apart bit by bit or unpacked (`value_eq`), and it never falls along the total order of doubles
(`value_mono`): within one sign the bits of a double, read as a number, grow with its magnitude
(`magnitude_mono`).
-/

namespace SuiteMetrics.Decimal

open Float.Model (Format UnpackedFloat totalExponent)
open Float.Model.UnpackedFloat

/-- The value of a double that is taken apart. -/
def Binary64.value (b : Binary64) : ℚ :=
  (if b.negative then -1 else 1) * (b.significand * 2 ^ b.scale)

theorem Binary64.value_of_positive {b : Binary64} (h : b.negative = false) :
    b.value = b.significand * 2 ^ b.scale := by
  rw [value, h, if_neg Bool.false_ne_true, one_mul]

theorem Binary64.value_of_negative {b : Binary64} (h : b.negative = true) :
    b.value = -(b.significand * 2 ^ b.scale) := by
  rw [value, h, if_pos rfl, neg_one_mul]

/-- The value of a double. Infinities and NaN have none, and zero stands for it. -/
def value (x : Float) : ℚ := ((Binary64.ofFloat? x).map Binary64.value).getD 0

/-! ### Bits -/

/-- The value of the double whose bits, but for the sign, are those of a number. -/
def magnitude (bits : Nat) : ℚ :=
  (if bits / 2 ^ 52 = 0 then bits % 2 ^ 52 else bits % 2 ^ 52 + 2 ^ 52 : Nat) *
    2 ^ (((if bits / 2 ^ 52 = 0 then 1 else bits / 2 ^ 52 : Nat) : Int) - 1075)

theorem magnitude_nonneg (bits : Nat) : 0 ≤ magnitude bits := by
  rw [magnitude]
  positivity

theorem magnitude_le_succ (bits : Nat) : magnitude bits ≤ magnitude (bits + 1) := by
  rw [magnitude, magnitude]
  by_cases last : bits % 2 ^ 52 + 1 = 2 ^ 52
  · -- The next exponent begins with the least significand.
    have exponent : (bits + 1) / 2 ^ 52 = bits / 2 ^ 52 + 1 := by omega
    have fraction : (bits + 1) % 2 ^ 52 = 0 := by omega
    rw [exponent, fraction, if_neg (Nat.succ_ne_zero _), if_neg (Nat.succ_ne_zero _)]
    split
    case isTrue zero =>
        rw [zero]
        refine mul_le_mul_of_nonneg_right ?_ (by positivity)
        exact_mod_cast (by omega : bits % 2 ^ 52 ≤ 0 + 2 ^ 52)
    case isFalse =>
        have double : (2 : ℚ) ^ (((bits / 2 ^ 52 + 1 : Nat) : Int) - 1075) =
            2 * 2 ^ (((bits / 2 ^ 52 : Nat) : Int) - 1075) := by
          rw [← zpow_one_add₀ two_ne_zero]
          congr 1
          omega
        rw [double, ← mul_assoc]
        refine mul_le_mul_of_nonneg_right ?_ (by positivity)
        exact_mod_cast (by omega : bits % 2 ^ 52 + 2 ^ 52 ≤ (0 + 2 ^ 52) * 2)
  · have exponent : (bits + 1) / 2 ^ 52 = bits / 2 ^ 52 := by omega
    have fraction : (bits + 1) % 2 ^ 52 = bits % 2 ^ 52 + 1 := by omega
    rw [exponent, fraction]
    refine mul_le_mul_of_nonneg_right (Nat.cast_le.mpr ?_) (by positivity)
    split
    · exact Nat.le_succ _
    · exact Nat.add_le_add_right (Nat.le_succ _) _

theorem magnitude_mono : Monotone magnitude := monotone_nat_of_le_succ magnitude_le_succ

theorem ofFloat?_eq (x : Float) :
    Binary64.ofFloat? x =
      if x.toBits.toNat / 2 ^ 52 % 2048 = 2047 then none
      else some {
        negative := x.toBits.toNat / 2 ^ 63 = 1
        significand := if x.toBits.toNat / 2 ^ 52 % 2048 = 0 then x.toBits.toNat % 2 ^ 52
          else x.toBits.toNat % 2 ^ 52 + 2 ^ 52
        scale := ((if x.toBits.toNat / 2 ^ 52 % 2048 = 0 then 1
          else x.toBits.toNat / 2 ^ 52 % 2048 : Nat) : Int) - 1075
        narrowBelow := x.toBits.toNat % 2 ^ 52 = 0 && x.toBits.toNat / 2 ^ 52 % 2048 > 1 } := rfl

theorem toNat_unpackMantissa (b : BitVec Format.binary64.numBits) :
    (unpackMantissa b).toNat = b.toNat % 2 ^ 52 := by
  rw [unpackMantissa, BitVec.toNat_cast, BitVec.extractLsb_toNat]
  rfl

theorem toNat_unpackExponent (b : BitVec Format.binary64.numBits) :
    (unpackExponent b).toNat = b.toNat / 2 ^ 52 % 2048 := by
  rw [unpackExponent, BitVec.toNat_cast, BitVec.extractLsb_toNat, Nat.shiftRight_eq_div_pow]
  rfl

theorem toNat_unpackSign (b : BitVec Format.binary64.numBits) :
    (unpackSign b).toNat = b.toNat / 2 ^ 63 := by
  rw [unpackSign, BitVec.toNat_cast, BitVec.extractLsb_toNat, Nat.shiftRight_eq_div_pow]
  have width : b.toNat < 2 ^ 64 := b.isLt
  change b.toNat / 2 ^ 63 % 2 = _
  omega

/-- The parts of a double that are read off its bits are those of the unpacked double. -/
inductive Binary64.Reads : Binary64 → UnpackedFloat → Prop where
  | zero {b : Binary64} {s : Sign} (negative : b.negative = (s == .negative))
    (significand : b.significand = 0) : Reads b (.zero s)
  | finite {b : Binary64} {s : Sign} {m : Nat} {e : Int} {pos : 0 < m}
    (negative : b.negative = (s == .negative)) (significand : b.significand = m)
    (scale : b.scale = e) : Reads b (.finite s m e pos)

theorem sign_negative (v : BitVec 1) : (Sign.ofBitVec v == .negative) = decide (v.toNat = 1) := by
  revert v
  decide

/-- The bits of a double. -/
def packed (x : Float) : BitVec Format.binary64.numBits := x.toModel.toBits.toBitVec

theorem ofFloat?_reads (x : Float) :
    (x.isFinite = false ∧ Binary64.ofFloat? x = none) ∨
      ∃ b, Binary64.ofFloat? x = some b ∧ b.Reads x.toModel.unpack := by
  have bits : x.toBits.toNat = (packed x).toNat := rfl
  have finite : x.isFinite = (unpack .binary64 (packed x)).isFinite := rfl
  have unpacked : x.toModel.unpack = unpack .binary64 (packed x) := rfl
  rw [finite, unpacked, ofFloat?_eq, bits]
  generalize packed x = b
  rw [← toNat_unpackExponent, ← toNat_unpackMantissa, ← toNat_unpackSign, ← sign_negative]
  have parts := unpack_packComponents (Sign.ofBitVec (unpackSign b)) (unpackExponent b)
    (unpackMantissa b)
  rw [packComponents_unpackSign_unpackExponent_unpackMantissa] at parts
  rw [parts]
  generalize Sign.ofBitVec (unpackSign b) = s
  generalize unpackMantissa b = mantissa
  generalize unpackExponent b = exponent
  by_cases top : exponent = -1#11
  · subst top
    left
    refine ⟨?_, rfl⟩
    rw [if_pos rfl]
    split
    · rfl
    · rfl
  · have ne : exponent.toNat ≠ 2047 := fun same => top (BitVec.eq_of_toNat_eq same)
    right
    rw [if_neg top, if_neg ne]
    refine ⟨_, rfl, ?_⟩
    by_cases least : exponent = 0#11
    · subst least
      rw [if_pos rfl]
      by_cases zero : mantissa = 0#52
      · subst zero
        rw [dif_pos rfl]
        exact .zero rfl rfl
      · rw [dif_neg zero]
        exact .finite rfl rfl rfl
    · have ne' : exponent.toNat ≠ 0 := fun same => least (BitVec.eq_of_toNat_eq same)
      rw [if_neg least]
      refine .finite rfl ?_ ?_
      · rw [toNat_implicitBit]
        exact (if_neg ne').trans (Nat.add_comm _ _)
      · exact congrArg (fun n : Nat => (n : Int) - 1075) (if_neg ne')

theorem isFinite_iff {x : Float} : x.isFinite = true ↔ x.toModel.unpack.isFinite = true := Iff.rfl

/-- The value of an unpacked double. -/
def unpackedValue : UnpackedFloat → ℚ
  | .finite s m e _ => s.apply m * 2 ^ e
  | _ => 0

theorem Binary64.Reads.value_eq {b : Binary64} {f : UnpackedFloat} (h : b.Reads f) :
    b.value = unpackedValue f := by
  cases h with
  | @zero s negative empty =>
      rw [Binary64.value, empty, Nat.cast_zero, zero_mul, mul_zero]
      rfl
  | @finite s m e pos negative significand scale =>
      rw [Binary64.value, negative, significand, scale, unpackedValue]
      cases s with
      | negative => simp [Sign.apply]
      | positive => simp [Sign.apply]

theorem value_eq (x : Float) : value x = unpackedValue x.toModel.unpack := by
  rw [value]
  rcases ofFloat?_reads x with ⟨infinite, none_⟩ | ⟨b, some_, reads⟩
  · rw [none_]
    change x.toModel.unpack.isFinite = false at infinite
    generalize x.toModel.unpack = f at infinite
    cases f with
    | infinity => rfl
    | notANumber => rfl
    | zero => rfl
    | finite => cases infinite
  · rw [some_]
    exact reads.value_eq

/-! ### Order -/

theorem value_eq_magnitude {x : Float} (h : x.isFinite = true) :
    value x = if x.toBits.toNat < 2 ^ 63 then magnitude x.toBits.toNat
      else -magnitude (x.toBits.toNat - 2 ^ 63) := by
  have width : x.toBits.toNat < 2 ^ 64 := x.toBits.toBitVec.isLt
  rcases ofFloat?_reads x with ⟨infinite, -⟩ | ⟨b, some_, -⟩
  · rw [h] at infinite
    cases infinite
  · rw [value, some_]
    rw [ofFloat?_eq] at some_
    generalize x.toBits.toNat = bits at some_ width ⊢
    rw [Option.ite_none_left_eq_some] at some_
    obtain ⟨-, same⟩ := some_
    cases same
    by_cases positive : bits < 2 ^ 63
    · have sign : ¬ bits / 2 ^ 63 = 1 := by omega
      have exponent : bits / 2 ^ 52 % 2048 = bits / 2 ^ 52 := by omega
      rw [if_pos positive, exponent]
      exact Binary64.value_of_positive (decide_eq_false sign)
    · have sign : bits / 2 ^ 63 = 1 := by omega
      have exponent : bits / 2 ^ 52 % 2048 = (bits - 2 ^ 63) / 2 ^ 52 := by omega
      have fraction : bits % 2 ^ 52 = (bits - 2 ^ 63) % 2 ^ 52 := by omega
      rw [if_neg positive, exponent, fraction]
      exact Binary64.value_of_negative (decide_eq_true sign)

/-- Values of doubles are ordered as the doubles are. -/
theorem value_mono {x y : Float} (hx : x.isFinite = true) (hy : y.isFinite = true)
    (h : totalLe x y = true) : value x ≤ value y := by
  have power : Nat.pow 2 63 = 2 ^ 63 := rfl
  have le := totalLe_iff.mp h
  rw [value_eq_magnitude hx, value_eq_magnitude hy]
  rw [orderKey, orderKey, power] at le
  split
  case isTrue first =>
      rw [if_pos first] at le
      have second : y.toBits.toNat < 2 ^ 63 := by
        by_contra large
        rw [if_neg large] at le
        omega
      rw [if_pos second] at le ⊢
      exact magnitude_mono (by omega)
  case isFalse first =>
      rw [if_neg first] at le
      split
      case isTrue second =>
          exact (neg_nonpos.mpr (magnitude_nonneg _)).trans (magnitude_nonneg _)
      case isFalse second =>
          rw [if_neg second] at le
          exact neg_le_neg (magnitude_mono (by omega))

end SuiteMetrics.Decimal
