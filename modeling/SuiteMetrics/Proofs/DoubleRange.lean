import SuiteMetrics.Proofs.Rounding

/-!
The range of sums, differences, products and quotients of doubles.

A double is confined when its exponent is bounded; an infinity of one sign may be let through, as a
sum with terms of unbounded size may be infinite but only in one direction. Every operation on
confined doubles gives a confined double again, with a bound that is the bound of the exact result
and a little more for the rounding.
-/

namespace SuiteMetrics.Decimal

open Float.Model (Format UnpackedFloat totalExponent)
open Float.Model.UnpackedFloat

/-- The double is bounded, or the infinity of a sign. -/
def WithinOr (s : Sign) (bound : Int) (f : UnpackedFloat) : Prop :=
  Within bound f ∨ f = .infinity s

/-! ### Unpacked operations -/

section Unpacked

variable {a b : Int} {x y : UnpackedFloat}

theorem natAbs_apply (s : Sign) (n : Nat) : (s.apply n).natAbs = n := by
  cases s with
  | negative => exact (Int.natAbs_neg _).trans (Int.natAbs_natCast n)
  | positive => exact Int.natAbs_natCast n

/-- A significand that is moved to a smaller exponent is shorter than one with a larger exponent. -/
theorem decreaseExponent_lt {m p : Nat} (hm : m < 2 ^ p) {e top : Int} (le : e ≤ top)
    (target : Int) : (decreaseExponent m e target).1 < 2 ^ (p + (top - target).toNat) := by
  rw [decreaseExponent, Nat.shiftLeft_eq, Nat.pow_add]
  exact Nat.mul_lt_mul_of_lt_of_le hm (Nat.pow_le_pow_right Nat.two_pos (by omega))
    (Nat.two_pow_pos _)

theorem mul_within (hx : Within a x) (hy : Within b y) :
    Within (max (a + b + 54) (-1073)) (mul .binary64 x y) := by
  cases hx with
  | zero s =>
      cases hy with
      | zero t => exact .zero _
      | finite short le => exact .zero _
  | @finite s m e pos short le =>
      cases hy with
      | zero t => exact .zero _
      | @finite t n d pos' short' le' =>
          have product : m * n < 2 ^ (53 + 53) := by
            rw [Nat.pow_add]
            exact Nat.mul_lt_mul'' short short'
          exact (roundWithAccuracy_within product (by decide) _ _ _).mono (by omega)

theorem neg_within (hx : Within a x) : Within a (neg x) := by
  cases hx with
  | zero s => exact .zero _
  | finite short le => exact .finite short le

theorem sub_within (hx : Within a x) (hy : Within b y) :
    Within (max (max a b + 2) (-1073)) (sub .binary64 x y) := by
  cases hx with
  | zero s =>
      cases hy with
      | zero t =>
          rw [sub]
          split
          · exact .zero _
          · exact .zero _
      | finite short le => exact .finite short (by omega)
  | @finite s m e pos short le =>
      cases hy with
      | zero t => exact .finite short (by omega)
      | @finite t n d pos' short' le' =>
          have left := decreaseExponent_lt short (le_max_left e d) (min e d)
          have right := decreaseExponent_lt short' (le_max_right e d) (min e d)
          generalize span : (max e d - min e d).toNat = gap at left right
          have difference : (s.apply (decreaseExponent m e (min e d)).1 -
              t.apply (decreaseExponent n d (min e d)).1).natAbs < 2 ^ (53 + gap + 1) := by
            refine lt_of_le_of_lt (Int.natAbs_sub_le _ _) ?_
            rw [natAbs_apply, natAbs_apply, Nat.pow_succ]
            omega
          exact (normalize_within difference (by omega) _ _).mono (by omega)

/-- A quotient has the exponent of the dividend less that of the divisor. -/
theorem div_within (hx : Within a x) (s : Sign) (n : Nat) (d : Int) (pos : 0 < n) :
    Within (max (a - d + 1) (-1073)) (div .binary64 x (.finite s n d pos)) := by
  cases hx with
  | zero t => exact .zero _
  | @finite t m e pos' short le =>
      rw [div, divCore]
      dsimp only
      generalize Format.binary64.targetExponent (totalExponent m e - totalExponent n d) = target
      generalize span : (e - d - min (e - d) target).toNat = gap
      have quotient : m <<< gap / n < 2 ^ (53 + gap) := by
        rw [Nat.shiftLeft_eq, Nat.pow_add]
        exact lt_of_le_of_lt (Nat.div_le_self _ _)
          (Nat.mul_lt_mul_of_pos_right short (Nat.two_pow_pos _))
      exact (roundWithAccuracy_within quotient (by omega) _ _ _).mono (by omega)

end Unpacked

/-! ### Infinities of one sign -/

section OneSign

variable {s : Sign} {a b : Int} {x y : UnpackedFloat}

theorem positive_mul (s : Sign) : .positive * s = s := by
  cases s
  · rfl
  · rfl

theorem mul_positive (s : Sign) : s * .positive = s := by
  cases s
  · rfl
  · rfl

theorem div_positive (s : Sign) : s / .positive = s := by
  cases s
  · rfl
  · rfl

theorem WithinOr.mul_left {m : Nat} {e : Int} {pos : 0 < m} (hx : WithinOr s a x)
    (hc : Within b (.finite .positive m e pos)) :
    WithinOr s (max (b + a + 54) (-1073)) (mul .binary64 (.finite .positive m e pos) x) := by
  rcases hx with hx | rfl
  · exact .inl (mul_within hc hx)
  · exact .inr (congrArg UnpackedFloat.infinity (positive_mul s))

theorem WithinOr.mul_right {m : Nat} {e : Int} {pos : 0 < m} (hx : WithinOr s a x)
    (hc : Within b (.finite .positive m e pos)) :
    WithinOr s (max (a + b + 54) (-1073)) (mul .binary64 x (.finite .positive m e pos)) := by
  rcases hx with hx | rfl
  · exact .inl (mul_within hx hc)
  · exact .inr (congrArg UnpackedFloat.infinity (mul_positive s))

theorem WithinOr.div {m : Nat} {e : Int} {pos : 0 < m} (hx : WithinOr s a x) :
    WithinOr s (max (a - e + 1) (-1073)) (div .binary64 x (.finite .positive m e pos)) := by
  rcases hx with hx | rfl
  · exact .inl (div_within hx .positive m e pos)
  · exact .inr (congrArg UnpackedFloat.infinity (div_positive s))

/-- Infinities of different signs do not meet when one is subtracted from the other. -/
theorem WithinOr.sub (hx : WithinOr .negative a x) (hy : WithinOr .positive b y) :
    WithinOr .negative (max (max a b + 2) (-1073)) (sub .binary64 x y) := by
  rcases hx with hx | rfl
  · rcases hy with hy | rfl
    · exact .inl (sub_within hx hy)
    · right
      cases hx with
      | zero => rfl
      | finite => rfl
  · right
    rcases hy with hy | rfl
    · cases hy with
      | zero => rfl
      | finite => rfl
    · rfl

theorem repack_withinOr (h : WithinOr s a x) (low : -1074 ≤ a) (high : a ≤ 971) :
    WithinOr s a (repack x) := by
  rcases h with h | rfl
  · exact .inl (repack_within h low high)
  · exact .inr (repack_infinity s)

end OneSign

/-! ### Doubles -/

/-- A double that is bounded or the infinity of a sign. -/
def Confined (s : Sign) (bound : Int) (x : Float) : Prop := WithinOr s bound x.toModel.unpack

/-- A positive finite double with an exponent. -/
def HasExponent (e : Int) (x : Float) : Prop :=
  ∃ m pos, x.toModel.unpack = .finite .positive m e pos ∧ m < 2 ^ 53

section Doubles

variable {s : Sign} {a b e : Int} {x y c : Float}

theorem HasExponent.confined (h : HasExponent e c) (s : Sign) : Confined s e c := by
  obtain ⟨m, pos, eq, short⟩ := h
  rw [Confined, eq]
  exact .inl (.finite short (le_refl e))

theorem Confined.mul_left (hx : Confined s a x) (hc : HasExponent e c)
    (fits : max (e + a + 54) (-1073) ≤ 971) :
    Confined s (max (e + a + 54) (-1073)) (c * x) := by
  obtain ⟨m, pos, eq, short⟩ := hc
  change WithinOr s _ (repack (mul .binary64 c.toModel.unpack x.toModel.unpack))
  rw [eq]
  exact repack_withinOr (WithinOr.mul_left hx (.finite short (le_refl e))) (by omega) fits

theorem Confined.mul_right (hx : Confined s a x) (hc : HasExponent e c)
    (fits : max (a + e + 54) (-1073) ≤ 971) :
    Confined s (max (a + e + 54) (-1073)) (x * c) := by
  obtain ⟨m, pos, eq, short⟩ := hc
  change WithinOr s _ (repack (mul .binary64 x.toModel.unpack c.toModel.unpack))
  rw [eq]
  exact repack_withinOr (WithinOr.mul_right hx (.finite short (le_refl e))) (by omega) fits

theorem Confined.div (hx : Confined s a x) (hc : HasExponent e c)
    (fits : max (a - e + 1) (-1073) ≤ 971) :
    Confined s (max (a - e + 1) (-1073)) (x / c) := by
  obtain ⟨m, pos, eq, short⟩ := hc
  change WithinOr s _ (repack (UnpackedFloat.div .binary64 x.toModel.unpack c.toModel.unpack))
  rw [eq]
  exact repack_withinOr (WithinOr.div hx) (by omega) fits

theorem Confined.sub (hx : Confined .negative a x) (hy : Confined .positive b y)
    (fits : max (max a b + 2) (-1073) ≤ 971) :
    Confined .negative (max (max a b + 2) (-1073)) (x - y) :=
  repack_withinOr (WithinOr.sub hx hy) (by omega) fits

end Doubles

end SuiteMetrics.Decimal
