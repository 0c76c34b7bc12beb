import BlockLang.Decimal.Arithmetic
import BlockLang.Proofs.Decimal.Value
import Mathlib.Tactic.Ring

/-!
# Exact arithmetic

Sums, differences, products and powers of decimals stand for the sums, differences, products and powers of the numbers
that the decimals stand for, with whatever scale they are written; and decimals are ordered as these numbers are.

## Main statements

- `Decimal.value_add`, `Decimal.value_sub`, `Decimal.value_mul`, `Decimal.value_of_pow?`: the exact operations.
- `Decimal.same_iff`, `Decimal.order_eq_lt_iff`, `Decimal.order_eq_gt_iff`: the order.
-/

namespace BlockLang.Decimal

variable {a b d : Decimal} {s : ℤ}

/-! ## §1 Other scales -/

/-- With more digits after the point a number has more zeros. -/
theorem digitsAt_mul_zpow (h : d.scale ≤ s) : (d.digitsAt s : ℚ) * 10 ^ (-s) = d.value := by
  have hten : (10 : ℚ) ≠ 0 := by norm_num
  have hzeros : ((s - d.scale).toNat : ℤ) + -s = -d.scale := by omega
  rw [digitsAt_eq, value, unit, ← hzeros, zpow_add₀ hten, zpow_natCast, ← mul_assoc]
  push_cast
  rfl

theorem value_withScale (h : d.scale ≤ s) : (d.withScale s).value = d.value :=
  digitsAt_mul_zpow h

/-- Removing trailing zeros does not change the number. -/
theorem value_stripZeros (digits scale : ℤ) : (stripZeros digits scale).value = value ⟨digits, scale⟩ := by
  fun_induction stripZeros digits scale with
  | case1 digits scale hzero ih =>
    have hsplit : digits = digits / 10 * 10 := by omega
    have hscale : -(scale - 1) = -scale + 1 := by omega
    have hten : (10 : ℚ) ≠ 0 := by norm_num
    calc (stripZeros (digits / 10) (scale - 1)).value
        = (digits / 10 : ℤ) * 10 ^ (-(scale - 1)) := ih
      _ = ((digits / 10 * 10 : ℤ) : ℚ) * 10 ^ (-scale) := by
        rw [hscale, zpow_add_one₀ hten]
        push_cast
        ring
      _ = value ⟨digits, scale⟩ := by rw [← hsplit]; rfl
  | case2 digits scale => rfl

theorem value_normalized (d : Decimal) : d.normalized.value = d.value := by
  unfold normalized
  split
  · rename_i hzero
    rw [d.value_eq_zero_iff.mpr hzero]
    exact (value_eq_zero_iff _).mpr rfl
  · exact value_stripZeros d.digits d.scale

theorem value_of_isOne (h : d.isOne = true) : d.value = 1 := by
  simp only [isOne, Bool.and_eq_true, decide_eq_true_eq, beq_iff_eq] at h
  obtain ⟨⟨hscale, -⟩, hdigits⟩ := h
  have hnat : d.scale.toNat = d.scale.natAbs := by omega
  rw [value, hdigits, hnat, d.unit_of_nonneg hscale]
  push_cast
  exact mul_inv_cancel₀ (by positivity)

/-! ## §2 Exact operations -/

theorem value_add (a b : Decimal) : (a.add b).value = a.value + b.value := by
  -- A zero summand only lengthens the other one.
  have hpadding : ∀ c d : Decimal, c.scale ≤ c.scale + zeroPadding c d := by
    intro c d
    unfold zeroPadding
    omega
  unfold add
  split
  · rename_i hb
    rw [value_withScale (hpadding a b), b.value_eq_zero_iff.mpr hb, add_zero]
  split
  · rename_i ha
    rw [value_withScale (hpadding b a), a.value_eq_zero_iff.mpr ha, zero_add]
  · rw [← digitsAt_mul_zpow (le_max_left a.scale b.scale), ← digitsAt_mul_zpow (le_max_right a.scale b.scale),
      ← add_mul, value, unit]
    push_cast
    rfl

theorem value_sub (a b : Decimal) : (a.sub b).value = a.value - b.value := by
  rw [← digitsAt_mul_zpow (le_max_left a.scale b.scale), ← digitsAt_mul_zpow (le_max_right a.scale b.scale), ← sub_mul,
    sub, value, unit]
  push_cast
  rfl

theorem value_mul (a b : Decimal) : (a.mul b).value = a.value * b.value := by
  unfold mul
  split
  · rename_i ha
    rw [value_normalized, value_of_isOne ha, one_mul]
  split
  · rename_i hb
    rw [value_normalized, value_of_isOne hb, mul_one]
  · have hten : (10 : ℚ) ≠ 0 := by norm_num
    simp only [value, unit]
    rw [neg_add, zpow_add₀ hten]
    push_cast
    ring

theorem value_of_pow? {n : ℕ} (h : a.pow? n = some d) : d.value = a.value ^ n := by
  unfold pow? at h
  split at h
  · cases h
    have hscale : -(a.scale * n) = -a.scale * n := by ring
    simp only [value, unit]
    rw [hscale, zpow_mul, zpow_natCast, mul_pow]
    push_cast
    rfl
  · cases h

theorem isSome_pow?_iff {n : ℕ} : (a.pow? n).isSome ↔ scaleFits (a.scale * n) := by
  unfold pow?
  split <;> simp [*]

/-! ## §3 The order -/

theorem order_eq_lt_iff : a.order b = .lt ↔ a.value < b.value := by
  rw [order_eq, Int.compare_eq_lt, commonScale, ← digitsAt_mul_zpow (le_max_left a.scale b.scale),
    ← digitsAt_mul_zpow (le_max_right a.scale b.scale), mul_lt_mul_iff_left₀ (by positivity)]
  exact Int.cast_lt.symm

theorem order_eq_gt_iff : a.order b = .gt ↔ b.value < a.value := by
  rw [order_eq, Int.compare_eq_gt, commonScale, ← digitsAt_mul_zpow (le_max_left a.scale b.scale),
    ← digitsAt_mul_zpow (le_max_right a.scale b.scale), mul_lt_mul_iff_left₀ (by positivity)]
  exact Int.cast_lt.symm

theorem same_iff : a.same b = true ↔ a.value = b.value := by
  rw [same, beq_iff_eq, order_eq, Int.compare_eq_eq, commonScale,
    ← digitsAt_mul_zpow (le_max_left a.scale b.scale), ← digitsAt_mul_zpow (le_max_right a.scale b.scale)]
  have hunit : (10 : ℚ) ^ (-(max a.scale b.scale)) ≠ 0 := by positivity
  rw [mul_left_inj' hunit, Int.cast_inj]

end BlockLang.Decimal
