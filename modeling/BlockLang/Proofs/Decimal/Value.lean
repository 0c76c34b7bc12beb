import BlockLang.Decimal.Basic
import Mathlib.Algebra.Order.Field.Power
import Mathlib.Data.Rat.Cast.Order
import Mathlib.Tactic.Positivity

/-!
# The number that a decimal stands for

A decimal stands for a rational number.  Decimals of different scales can stand for one number, and a decimal is
negated by negating its digits.

## Main definition

- `Decimal.value`: the number.
-/

namespace BlockLang.Decimal

/-! ## §1 Units and values -/

/-- The unit in which a decimal counts: one in its last place. -/
def unit (d : Decimal) : ℚ :=
  10 ^ (-d.scale)

/-- The number that a decimal stands for. -/
def value (d : Decimal) : ℚ :=
  d.digits * d.unit

variable (d : Decimal)

theorem unit_pos : 0 < d.unit := by
  unfold unit
  positivity

theorem unit_ne_zero : d.unit ≠ 0 :=
  d.unit_pos.ne'

/-- A decimal without digits after its point counts in a power of ten. -/
theorem unit_of_nonpos (h : d.scale ≤ 0) : d.unit = 10 ^ d.scale.natAbs := by
  have hscale : -d.scale = (d.scale.natAbs : ℤ) := by omega
  rw [unit, hscale, zpow_natCast]

/-- A decimal with digits after its point counts in parts of a power of ten. -/
theorem unit_of_nonneg (h : 0 ≤ d.scale) : d.unit = (10 ^ d.scale.natAbs)⁻¹ := by
  have hscale : d.scale = (d.scale.natAbs : ℤ) := by omega
  rw [unit, zpow_neg, hscale, zpow_natCast, Int.natAbs_natCast]

@[simp] theorem value_eq_zero_iff : d.value = 0 ↔ d.digits = 0 := by
  rw [value, mul_eq_zero, or_iff_left d.unit_ne_zero, Int.cast_eq_zero]

/-! ## §2 Opposites -/

/-- The opposite number with the same scale. -/
instance : Neg Decimal where
  neg d := ⟨-d.digits, d.scale⟩

@[simp] theorem digits_neg : (-d).digits = -d.digits := rfl

@[simp] theorem unit_neg : (-d).unit = d.unit := rfl

@[simp] theorem value_neg : (-d).value = -d.value := by
  rw [value, digits_neg, unit_neg, Int.cast_neg, neg_mul, value]

end BlockLang.Decimal
