/-!
Counts that stop at a limit.

A `Capped limit` is a natural number that never exceeds its limit: sums that would are cut down to
it. Cutting is the only difference from natural numbers (`val_add`), so the order of a chain of sums
makes no difference (`add_assoc`, `add_comm`).
-/

namespace SuiteMetrics

/-- A count that is at most `limit`. -/
structure Capped (limit : Nat) where
  val : Nat
  val_le : val ≤ limit
  deriving DecidableEq, Repr

namespace Capped

variable {limit : Nat}

/-- A natural number, cut down to the limit. -/
def ofNat (n : Nat) : Capped limit := ⟨min limit n, Nat.min_le_left ..⟩

instance : Inhabited (Capped limit) := ⟨ofNat 0⟩

instance : Zero (Capped limit) := ⟨⟨0, Nat.zero_le _⟩⟩

instance : Add (Capped limit) := ⟨fun a b => ofNat (a.val + b.val)⟩

/-- One less, and zero below zero. -/
def pred (a : Capped limit) : Capped limit :=
  ⟨a.val - 1, Nat.le_trans (Nat.sub_le ..) a.val_le⟩

@[ext] theorem ext {a b : Capped limit} (h : a.val = b.val) : a = b := by
  cases a; cases b; simp_all

@[simp] theorem val_ofNat (n : Nat) : (ofNat n : Capped limit).val = min limit n := rfl

@[simp] theorem val_zero : (0 : Capped limit).val = 0 := rfl

@[simp] theorem val_add (a b : Capped limit) : (a + b).val = min limit (a.val + b.val) := rfl

@[simp] theorem val_pred (a : Capped limit) : a.pred.val = a.val - 1 := rfl

theorem add_comm (a b : Capped limit) : a + b = b + a := by
  ext; simp [Nat.add_comm]

theorem add_assoc (a b c : Capped limit) : a + b + c = a + (b + c) := by
  ext
  simp only [val_add]
  omega

@[simp] theorem zero_add (a : Capped limit) : 0 + a = a := by
  ext
  have := a.val_le
  simp only [val_add, val_zero]
  omega

@[simp] theorem add_zero (a : Capped limit) : a + 0 = a := by
  rw [add_comm, zero_add]

end Capped

end SuiteMetrics
