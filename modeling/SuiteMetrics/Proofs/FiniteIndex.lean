import SuiteMetrics.Maintainability
import SuiteMetrics.Proofs.DoubleRange

/-!
The maintainability index is a number.

The index is made of logarithms, and it counts lines without a bound, so nothing is assumed of how
large the double of a count is. A count of at least one has a logarithm that is bounded or plus
infinity (`confined_log`), and every logarithm is taken away from what is left of the index. So the
index is bounded or minus infinity before it is held between its bounds, and never undefined
(`maintainability_isFinite`).
-/

namespace SuiteMetrics.Decimal

open Float.Model (Format UnpackedFloat totalExponent)
open Float.Model.UnpackedFloat

/-! ### Counts as doubles -/

/-- A count with at most 53 bits is converted as a word and multiplied by one. -/
theorem unpack_ofNat_small {n : Nat} (h : n < 2 ^ 53) :
    (Float.ofNat n).toModel.unpack =
      repack (mul .binary64 (repack (normalize .binary64 n 0 .positive))
        (.finite .positive (2 ^ 52) (-52) (by decide))) := by
  have fast : n < 2 ^ 53 ∧ 0 ≤ 22 := ⟨h, by decide⟩
  have unfolded : Float.ofNat n = n.toUInt64.toFloat * Float.ofBits 0x3FF0000000000000 :=
    dif_pos fast
  have word : n.toUInt64.toNat = n := Nat.mod_eq_of_lt (h.trans (by decide))
  have converted : n.toUInt64.toFloat.toModel.unpack =
      repack (normalize .binary64 (n.toUInt64.toNat : Int) 0 .positive) := rfl
  have one : (Float.ofBits 0x3FF0000000000000).toModel.unpack =
      .finite .positive (2 ^ 52) (-52) (by decide) := rfl
  rw [word] at converted
  rw [unfolded, ← one, ← converted]
  rfl

/-- A longer count is multiplied by a power of two and rounded. -/
theorem unpack_ofNat_large {n : Nat} (h : ¬ n < 2 ^ 53) :
    (Float.ofNat n).toModel.unpack =
      repack (roundWithAccuracy .binary64 .positive (n <<< 53 * 1) (-53) .exact) := by
  have unfolded : Float.ofNat n = Float.ofModel (Float.Model.ofScientific n 0) :=
    dif_neg fun fast => h fast.1
  have ne : n ≠ 0 := by omega
  have large : ¬ (0 : Int) < -((2 ^ 11 : Int) + (n.log2 : Int)) := by omega
  rw [unfolded]
  change repack (UnpackedFloat.ofScientific .binary64 n 0) = _
  rw [UnpackedFloat.ofScientific, dif_neg ne, if_neg (by decide), if_neg large, if_pos (by decide)]
  rfl

/-- A count of bounded length is a bounded double. -/
theorem ofNat_within {n p : Nat} (hn : n < 2 ^ p) (long : 55 ≤ p) (fits : p ≤ 1000) :
    Within (p - 52) (Float.ofNat n).toModel.unpack := by
  by_cases small : n < 2 ^ 53
  · rw [unpack_ofNat_small small]
    have short : (n : Int).natAbs < 2 ^ 53 := small
    have integer : Within 1 (repack (normalize .binary64 n 0 .positive)) :=
      repack_within (normalize_within short (le_refl _) 0 .positive) (by decide) (by decide)
    have one : Within (-52) (.finite .positive (2 ^ 52) (-52) (by decide)) :=
      .finite (by decide) (le_refl _)
    exact repack_within ((mul_within integer one).mono (by omega)) (by omega) (by omega)
  · rw [unpack_ofNat_large small, Nat.mul_one, Nat.shiftLeft_eq]
    have longer : n * 2 ^ 53 < 2 ^ (p + 53) := by
      rw [Nat.pow_add]
      exact Nat.mul_lt_mul_of_pos_right hn (Nat.two_pow_pos _)
    have rounded := roundWithAccuracy_within longer (by omega) .positive (-53) .exact
    exact repack_within (rounded.mono (by omega)) (by omega) (by omega)

theorem normalize_natCast {n : Nat} (pos : 0 < n) :
    normalize .binary64 n 0 .positive = round .binary64 .positive n 0 := by
  have order : compare (n : Int) 0 = .gt := Int.compare_eq_gt.mpr (Int.natCast_pos.mpr pos)
  rw [UnpackedFloat.normalize, order]
  rfl

/-- A count that is not zero is positive as a double. -/
theorem ofNat_reaches {n : Nat} (pos : 0 < n) : Reaches (-104) (Float.ofNat n).toModel.unpack := by
  by_cases small : n < 2 ^ 53
  · rw [unpack_ofNat_small small, normalize_natCast pos]
    refine repack_reaches ?_ (by decide)
    have integer := repack_reaches (round_reaches pos) (by decide)
    generalize repack (round .binary64 .positive n 0) = f at integer ⊢
    cases integer with
    | infinity => exact .infinity
    | @finite m e hm full large =>
        have product : 2 ^ 52 ≤ m * 2 ^ 52 := Nat.le_mul_of_pos_left _ hm
        exact (roundWithAccuracy_reaches product (by omega) .exact).mono (by omega)
  · rw [unpack_ofNat_large small, Nat.mul_one, Nat.shiftLeft_eq]
    have full : 2 ^ 52 ≤ n * 2 ^ 53 := by omega
    have rounded := roundWithAccuracy_reaches full (by decide : (-1074 : Int) ≤ -53) .exact
    exact repack_reaches (rounded.mono (by decide)) (by decide)

/-- An integer of bounded length is a bounded double. -/
theorem ofInt_within {n : Int} {p : Nat} (hn : n.natAbs < 2 ^ p) (long : 55 ≤ p)
    (fits : p ≤ 1000) : Within (p - 52) (Float.ofInt n).toModel.unpack := by
  cases n with
  | ofNat n => exact ofNat_within hn long fits
  | negSucc n =>
      have magnitude : Within (p - 52) (Float.ofNat (n + 1)).toModel.unpack :=
        ofNat_within hn long fits
      exact repack_within (neg_within magnitude) (by omega) (by omega)

/-! ### Logarithms -/

/-- In fixed point, a sum of terms of the series is at most as many times the first power. -/
theorem artanhTerms_le {square : Nat} (small : square ≤ fixedOne) (terms power odd : Nat) :
    artanhTerms square terms power odd ≤ terms * power := by
  induction terms generalizing power odd with
  | zero => exact Nat.zero_le _
  | succ terms ih =>
      have falling : power * square / fixedOne ≤ power :=
        Nat.div_le_of_le_mul (by rw [Nat.mul_comm]; exact Nat.mul_le_mul_right _ small)
      calc
        power / odd + artanhTerms square terms (power * square / fixedOne) (odd + 2)
        _ ≤ power + terms * (power * square / fixedOne) :=
          Nat.add_le_add (Nat.div_le_self _ _) (ih _ _)
        _ ≤ power + terms * power := Nat.add_le_add_left (Nat.mul_le_mul_left _ falling) _
        _ = (terms + 1) * power := by rw [Nat.add_mul, Nat.one_mul, Nat.add_comm]

theorem fixedLogRatio_le (num den : Nat) : fixedLogRatio num den ≤ 96 * fixedOne := by
  have ratio : (num - den) * fixedOne / (num + den) ≤ fixedOne := by
    refine Nat.div_le_of_le_mul (Nat.mul_le_mul_right _ ?_)
    omega
  have square : ∀ y, y ≤ fixedOne → y * y / fixedOne ≤ fixedOne := fun y hy =>
    Nat.div_le_of_le_mul (Nat.mul_le_mul hy hy)
  have series := artanhTerms_le (square _ ratio) 48 ((num - den) * fixedOne / (num + den)) 1
  rw [fixedLogRatio, fixedArtanh]
  omega

/-- The logarithm of a positive double is small. -/
theorem fixedLog_lt {m : Nat} {e : Int} (short : m < 2 ^ 53) (low : -1074 ≤ e) (high : e ≤ 971) :
    (fixedLog m e).natAbs < 2 ^ 145 := by
  have length := log2_lt_of_lt short (by decide)
  have first := fixedLogRatio_le m (Nat.pow 2 m.log2)
  have two : fixedLogTwo ≤ 96 * fixedOne := fixedLogRatio_le 2 1
  have powers : ((e + m.log2) * fixedLogTwo).natAbs ≤ 1074 * (96 * fixedOne) := by
    rw [Int.natAbs_mul]
    exact Nat.mul_le_mul (by omega) two
  have one : fixedOne = 2 ^ 128 := rfl
  rw [fixedLog]
  omega

/-- The double is positive, and may be infinite. -/
inductive Positive : UnpackedFloat → Prop where
  | infinity : Positive (.infinity .positive)
  | finite {m : Nat} {e : Int} {pos : 0 < m} : Positive (.finite .positive m e pos)

theorem Reaches.positive {bound : Int} {f : UnpackedFloat} (h : Reaches bound f) : Positive f := by
  cases h with
  | infinity => exact .infinity
  | finite => exact .finite

theorem lt_iff {x y : Float} : x < y ↔ x.toModel.unpack.lt y.toModel.unpack = true :=
  decide_eq_true_iff

/-- What is larger than a positive double is positive. -/
theorem positive_of_lt {x y : Float} (hx : Positive x.toModel.unpack) (h : x < y) :
    Positive y.toModel.unpack := by
  have smaller : x.toModel.unpack.compare y.toModel.unpack = some .lt := eq_of_beq (lt_iff.mp h)
  generalize x.toModel.unpack = f at hx smaller
  generalize y.toModel.unpack = g at smaller ⊢
  rcases g with ⟨_ | _⟩ | _ | _ | ⟨_ | _, n, d, hn⟩
  case infinity.positive => exact .infinity
  case finite.positive => exact .finite
  -- A positive double is below no other.
  all_goals
    cases hx with
    | infinity => cases smaller
    | finite => cases smaller

theorem hasExponent_fixedOne : HasExponent 76 (Float.ofNat fixedOne) := by
  have power : Float.ofNat fixedOne = Float.ofBits 0x47F0000000000000 := by decide +kernel
  rw [power]
  exact ⟨2 ^ 52, by decide, rfl, by decide⟩

/-- The logarithm of a positive double is small or plus infinity. -/
theorem confined_log {x : Float} (h : Positive x.toModel.unpack) :
    Confined .positive 18 (log x) := by
  rw [log]
  generalize parts : x.toModel.unpack = f at h
  cases h with
  | infinity => exact .inr parts
  | @finite m e pos =>
      obtain ⟨short, low, high⟩ := unpack_bounds parts
      have small := ofInt_within (fixedLog_lt short low high) (by decide) (by decide)
      exact Confined.div (.inl small) hasExponent_fixedOne (by decide)

end SuiteMetrics.Decimal

namespace SuiteMetrics

open Decimal
open Float.Model (UnpackedFloat)
open Float.Model.UnpackedFloat

/-! ### The index -/

theorem positive_effectiveDensity (density : Float) :
    Positive (effectiveDensity density).toModel.unpack := by
  have least : Positive leastDensity.toModel.unpack := .finite
  rw [effectiveDensity]
  split
  case isTrue larger => exact positive_of_lt least larger
  case isFalse => exact least

/-- The index is bounded or minus infinity before it is held between its bounds. -/
theorem confined_rawMaintainability {loc : Nat} (pos : 0 < loc) (density : Float)
    {cyclomatic : Float} (small : Confined .positive 3 cyclomatic) :
    Confined .negative 82 (rawMaintainability loc density cyclomatic) := by
  have top : HasExponent (-45) 171.0 := ⟨_, _, rfl, by decide⟩
  have volume := (confined_log (ofNat_reaches pos).positive).mul_left
    (c := 5.2) (e := -50) ⟨_, _, rfl, by decide⟩ (by decide)
  have branches := small.mul_left (c := 0.23) (e := -55) ⟨_, _, rfl, by decide⟩ (by decide)
  have comments := (confined_log (positive_effectiveDensity density)).mul_left
    (c := 16.2) (e := -48) ⟨_, _, rfl, by decide⟩ (by decide)
  have index := (((top.confined .negative).sub volume (by decide)).sub branches (by decide)).sub
    comments (by decide)
  have scaled := index.mul_right (c := 100.0) (e := -46) ⟨_, _, rfl, by decide⟩ (by decide)
  exact scaled.div top (by decide)

/-- What is bounded or minus infinity is a number once it is held between the bounds. -/
theorem clamp_isFinite {bound : Int} {x : Float} (h : Confined .negative bound x) :
    (clamp 0.0 100.0 x).isFinite = true := by
  have upper : ∀ y : Float, y.isFinite = true →
      (if 100.0 < y then (100.0 : Float) else y).isFinite = true := fun y hy => by
    split
    · rfl
    · exact hy
  refine upper (if x < 0.0 then 0.0 else x) ?_
  split
  case isTrue => rfl
  case isFalse positive =>
      rcases h with h | infinite
      · exact h.isFinite
      · refine absurd (lt_iff.mpr ?_) positive
        rw [infinite]
        rfl

/-- The maintainability index, where there is one, is finite. -/
theorem maintainability_isFinite {loc commentLines : Nat} {cyclomatic index : Float}
    (small : Confined .positive 3 cyclomatic)
    (h : maintainability? loc commentLines cyclomatic = some index) : index.isFinite = true := by
  rw [maintainability?, commentDensity?, Option.map_eq_some_iff] at h
  obtain ⟨density, present, rfl⟩ := h
  split at present
  case isTrue => cases present
  case isFalse code =>
      split
      · rfl
      · exact clamp_isFinite (confined_rawMaintainability (Nat.pos_of_ne_zero code) density small)

end SuiteMetrics
