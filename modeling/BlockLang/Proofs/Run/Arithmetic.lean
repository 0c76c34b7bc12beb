import BlockLang.Proofs.Decimal.Division
import BlockLang.Proofs.Decimal.Exact
import BlockLang.Run.Operation
import Mathlib.Data.Rat.Floor

/-!
# Operators calculate with numbers

Operators on integers and decimals calculate with the numbers that these stand for.  How a decimal is written shows in
two places only: in how the result is written, and in the scale of a quotient, which is that of its dividend.

## Main definitions

- `SameNumber`: outcomes that differ at most in how a decimal is written.
- `Operation.Respects`: what operators do not see of decimals.
- `Operation.Exact`: what operators calculate.

## Main statement

- `Operation.binary_respects_numbers`
-/

namespace BlockLang

/-! ## §1 Numbers -/

/-- Two outcomes are the same error, the same integer, or decimals that stand for one number. -/
inductive SameNumber : Except RunError Value → Except RunError Value → Prop
  | error (e : RunError) : SameNumber (.error e) (.error e)
  | integer (n : ℤ) : SameNumber (.ok (.integer n)) (.ok (.integer n))
  | decimal {a b : Decimal} (h : a.value = b.value) : SameNumber (.ok (.decimal a)) (.ok (.decimal b))

/-- The operation on numbers that an operator carries out without rounding. -/
def Operator.exact? : Operator → Option (ℚ → ℚ → ℚ)
  | add => some (· + ·)
  | sub => some (· - ·)
  | mul => some (· * ·)
  | and | or | equal | notEqual | less | greater | div | pow => none

/-- The question about two numbers that an operator decides. -/
def Operator.test? : Operator → Option (ℚ → ℚ → Bool)
  | equal => some fun x y => x = y
  | notEqual => some fun x y => x ≠ y
  | less => some fun x y => x < y
  | greater => some fun x y => x > y
  | and | or | add | sub | mul | div | pow => none

/-- A number without its fraction. -/
def integerPart (x : ℚ) : ℤ :=
  if 0 ≤ x then ⌊x⌋ else ⌈x⌉

theorem integerPart_neg (x : ℚ) : integerPart (-x) = -integerPart x := by
  unfold integerPart
  rcases lt_trichotomy x 0 with hx | rfl | hx
  · rw [if_pos (by linarith), if_neg (by linarith), Int.floor_neg]
  · simp
  · rw [if_neg (by linarith), if_pos hx.le, Int.ceil_neg]

/-- Cutting a fraction towards zero leaves its integer part. -/
theorem tdiv_eq_integerPart (m n : ℤ) : m.tdiv n = integerPart (m / n) := by
  have hnat : ∀ k l : ℕ, (k : ℤ).tdiv l = integerPart ((k : ℤ) / (l : ℤ)) := by
    intro k l
    rw [integerPart, if_pos (by positivity), Int.tdiv_eq_ediv_of_nonneg (by positivity)]
    exact_mod_cast (Rat.floor_intCast_div_natCast k l).symm
  -- Signs go out of the fraction on both sides.
  obtain ⟨k, rfl | rfl⟩ := m.eq_nat_or_neg <;> obtain ⟨l, rfl | rfl⟩ := n.eq_nat_or_neg
  all_goals simp only [Int.neg_tdiv, Int.tdiv_neg, Int.cast_neg, neg_div, div_neg, integerPart_neg, hnat]

namespace Operation

open Decimal

/-! ## §2 Laws of operators -/

/-- If a decimal has a power with this exponent, the scale of the power is within its bounds. -/
def PowerFits (a : Decimal) (exponent : Value) : Prop :=
  ∀ n : ℕ, exponent = .integer n → n ≤ 65536 → scaleFits (a.scale * n)

/-- Operators do not see how decimals are written: they come to the same with decimals that stand for the same
numbers, as long as no scale is out of bounds.  A quotient depends on how its dividend is written, but not on how its
divisor is. -/
structure Respects (h : Heap) (offset : Nat) (a a' b b' : Decimal) : Prop where
  exact {op : Operator} {f : ℚ → ℚ → ℚ} (hop : op.exact? = some f) :
    SameNumber (binary h op (.decimal a) (.decimal b) offset) (binary h op (.decimal a') (.decimal b') offset)
  power (exponent : Value) (hscale : PowerFits a exponent) (hscale' : PowerFits a' exponent) :
    SameNumber (binary h .pow (.decimal a) exponent offset) (binary h .pow (.decimal a') exponent offset)
  test {op : Operator} {f : ℚ → ℚ → Bool} (hop : op.test? = some f) :
    binary h op (.decimal a') (.decimal b') offset = binary h op (.decimal a) (.decimal b) offset
  quotient (hscale : b.scale.natAbs < 2 ^ 32) (hscale' : b'.scale.natAbs < 2 ^ 32) :
    binary h .div (.decimal a) (.decimal b') offset = binary h .div (.decimal a) (.decimal b) offset

/-- Sums, differences, products and powers are exact, comparisons decide what they say, and quotients of integers are
cut towards zero. -/
structure Exact (h : Heap) (offset : Nat) : Prop where
  integers {op : Operator} {f : ℚ → ℚ → ℚ} (hop : op.exact? = some f) (m n : ℤ) :
    ∃ k : ℤ, binary h op (.integer m) (.integer n) offset = .ok (.integer k) ∧ (k : ℚ) = f m n
  decimals {op : Operator} {f : ℚ → ℚ → ℚ} (hop : op.exact? = some f) (a b : Decimal) :
    ∃ c, binary h op (.decimal a) (.decimal b) offset = .ok (.decimal c) ∧ c.value = f a.value b.value
  test {op : Operator} {f : ℚ → ℚ → Bool} (hop : op.test? = some f) (a b : Decimal) :
    binary h op (.decimal a) (.decimal b) offset = .ok (.boolean (f a.value b.value))
  integerPower (m : ℤ) {n : ℕ} (hn : n ≤ 65536) :
    binary h .pow (.integer m) (.integer n) offset = .ok (.integer (List.replicate n m).prod)
  decimalPower (a : Decimal) {n : ℕ} (hn : n ≤ 65536) (hscale : scaleFits (a.scale * n)) :
    ∃ c, binary h .pow (.decimal a) (.integer n) offset = .ok (.decimal c) ∧ c.value = (List.replicate n a.value).prod
  power_add (base : Value) {m n : ℕ} (hmn : m + n ≤ 65536)
      (hscale : ∀ a, base = .decimal a → scaleFits (a.scale * (m + n : ℕ))) :
    SameNumber (binary h .pow base (.integer (m + n : ℕ)) offset) (do
      let x ← binary h .pow base (.integer m) offset
      let y ← binary h .pow base (.integer n) offset
      binary h .mul x y offset)
  invalidExponent (base : Value) {n : ℤ} (hn : ¬ (0 ≤ n ∧ n ≤ 65536)) :
    binary h .pow base (.integer n) offset = .error (.invalidExponent offset)
  quotient (m : ℤ) {n : ℤ} (hn : n ≠ 0) :
    binary h .div (.integer m) (.integer n) offset = .ok (.integer (integerPart (m / n)))

variable {h : Heap} {op : Operator} {offset : Nat}

/-! ## §3 Sums, differences and products -/

theorem binary_integers {f : ℚ → ℚ → ℚ} (hop : op.exact? = some f) (m n : ℤ) :
    ∃ k : ℤ, binary h op (.integer m) (.integer n) offset = .ok (.integer k) ∧ (k : ℚ) = f m n := by
  cases op <;> cases hop
  · exact ⟨m + n, rfl, Int.cast_add m n⟩
  · exact ⟨m - n, rfl, Int.cast_sub m n⟩
  · exact ⟨m * n, rfl, Int.cast_mul m n⟩

theorem binary_decimals {f : ℚ → ℚ → ℚ} (hop : op.exact? = some f) (a b : Decimal) :
    ∃ c, binary h op (.decimal a) (.decimal b) offset = .ok (.decimal c) ∧ c.value = f a.value b.value := by
  cases op <;> cases hop
  · exact ⟨a.add b, rfl, value_add a b⟩
  · exact ⟨a.sub b, rfl, value_sub a b⟩
  · exact ⟨a.mul b, rfl, value_mul a b⟩

theorem binary_test {f : ℚ → ℚ → Bool} (hop : op.test? = some f) (a b : Decimal) :
    binary h op (.decimal a) (.decimal b) offset = .ok (.boolean (f a.value b.value)) := by
  have hequal : h.same (.decimal a) (.decimal b) = decide (a.value = b.value) :=
    Bool.eq_iff_iff.mpr (same_iff.trans decide_eq_true_iff.symm)
  have hless : (a.order b == .lt) = decide (a.value < b.value) :=
    Bool.eq_iff_iff.mpr (beq_iff_eq.trans (order_eq_lt_iff.trans decide_eq_true_iff.symm))
  have hgreater : (a.order b == .gt) = decide (a.value > b.value) :=
    Bool.eq_iff_iff.mpr (beq_iff_eq.trans (order_eq_gt_iff.trans decide_eq_true_iff.symm))
  cases op <;> cases hop
  · exact congrArg (Except.ok ∘ Value.boolean) hequal
  · simp only [binary, comparison, hequal, decide_not]
  · exact congrArg (Except.ok ∘ Value.boolean) hless
  · exact congrArg (Except.ok ∘ Value.boolean) hgreater

/-! ## §4 Powers -/

theorem checkedExponent_of_le {n : ℕ} (hn : n ≤ 65536) : checkedExponent n offset = .ok n := by
  have hbounds : 0 ≤ (n : ℤ) ∧ (n : ℤ) ≤ maxExponent := ⟨Int.natCast_nonneg n, by exact_mod_cast hn⟩
  rw [checkedExponent, if_pos hbounds, Int.toNat_natCast]

theorem binary_power_integer (m : ℤ) {n : ℕ} (hn : n ≤ 65536) :
    binary h .pow (.integer m) (.integer n) offset = .ok (.integer (m ^ n)) := by
  change (checkedExponent n offset >>= _) = _
  rw [checkedExponent_of_le hn]
  rfl

/-- A decimal has a power unless the scale of the power is out of bounds. -/
theorem binary_power_decimal (a : Decimal) {n : ℕ} (hn : n ≤ 65536) (hscale : scaleFits (a.scale * n)) :
    ∃ c, binary h .pow (.decimal a) (.integer n) offset = .ok (.decimal c) ∧ c.value = a.value ^ n := by
  obtain ⟨c, hc⟩ := Option.isSome_iff_exists.mp (isSome_pow?_iff.mpr hscale)
  refine ⟨c, ?_, value_of_pow? hc⟩
  change (checkedExponent n offset >>= _) = _
  rw [checkedExponent_of_le hn]
  simp only [bind, Except.bind, hc]

theorem binary_power_of_other {base : Value} (hinteger : ∀ m, base ≠ .integer m) (hdecimal : ∀ a, base ≠ .decimal a)
    {n : ℕ} (hn : n ≤ 65536) :
    binary h .pow base (.integer n) offset = .error (.typeFault (.base base.kind) offset) := by
  change (checkedExponent n offset >>= _) = _
  rw [checkedExponent_of_le hn]
  cases base with
  | integer m => exact absurd rfl (hinteger m)
  | decimal a => exact absurd rfl (hdecimal a)
  | nil | boolean | character | string | list => rfl

theorem binary_power_of_not (base : Value) {n : ℤ} (hn : ¬ (0 ≤ n ∧ n ≤ 65536)) :
    binary h .pow base (.integer n) offset = .error (.invalidExponent offset) := by
  have hexponent : checkedExponent n offset = .error (.invalidExponent offset) := if_neg hn
  change (checkedExponent n offset >>= _) = _
  rw [hexponent]
  rfl

/-- A scale that is within its bounds when it is multiplied is so when it is multiplied by less. -/
theorem scaleFits_mul_of_le {scale : ℤ} {k n : ℕ} (hkn : k ≤ n) (h : scaleFits (scale * n)) :
    scaleFits (scale * k) := by
  simp only [scaleFits, Bool.and_eq_true, decide_eq_true_eq] at h ⊢
  have hcast : (k : ℤ) ≤ n := by exact_mod_cast hkn
  -- The smaller multiple lies between zero and the larger one.
  rcases le_total 0 scale with hsign | hsign
  · have hle := mul_le_mul_of_nonneg_left hcast hsign
    have hnonneg : 0 ≤ scale * k := by positivity
    omega
  · have hle := mul_le_mul_of_nonpos_left hcast hsign
    have hnonpos : scale * k ≤ 0 := mul_nonpos_of_nonpos_of_nonneg hsign (Int.natCast_nonneg k)
    omega

/-- The power to a sum of exponents is the product of the powers. -/
theorem binary_power_add (base : Value) {m n : ℕ} (hmn : m + n ≤ 65536)
    (hscale : ∀ a, base = .decimal a → scaleFits (a.scale * (m + n : ℕ))) :
    SameNumber (binary h .pow base (.integer (m + n : ℕ)) offset) (do
      let x ← binary h .pow base (.integer m) offset
      let y ← binary h .pow base (.integer n) offset
      binary h .mul x y offset) := by
  have hm : m ≤ 65536 := by omega
  have hn : n ≤ 65536 := by omega
  cases base with
  | integer b =>
    rw [binary_power_integer b hmn, binary_power_integer b hm, binary_power_integer b hn, pow_add]
    exact .integer _
  | decimal a =>
    obtain ⟨c, hc, hvalue⟩ := binary_power_decimal a hmn (hscale a rfl)
    obtain ⟨x, hx, hvalueX⟩ := binary_power_decimal a hm (scaleFits_mul_of_le (Nat.le_add_right m n) (hscale a rfl))
    obtain ⟨y, hy, hvalueY⟩ := binary_power_decimal a hn (scaleFits_mul_of_le (Nat.le_add_left n m) (hscale a rfl))
    have hmul : Operator.mul.exact? = some (· * ·) := rfl
    obtain ⟨z, hz, hvalueZ⟩ := binary_decimals hmul x y
    have hproduct : c.value = z.value := by rw [hvalue, hvalueZ, hvalueX, hvalueY, pow_add]
    rw [hc, hx, hy]
    change SameNumber _ (binary h .mul (.decimal x) (.decimal y) offset)
    rw [hz]
    exact .decimal hproduct
  -- No other value has powers: the refusal of the first factor is that of the product.
  | nil | boolean | character | string | list =>
    rw [binary_power_of_other ?hinteger ?hdecimal hmn, binary_power_of_other ?hinteger ?hdecimal hm]
    case hinteger | hdecimal => exact fun _ => nofun
    exact .error _

/-- Powers of decimals that stand for one number stand for one number. -/
theorem binary_power_congr {a a' : Decimal} (ha : a'.value = a.value) {exponent : Value} (hscale : PowerFits a exponent)
    (hscale' : PowerFits a' exponent) :
    SameNumber (binary h .pow (.decimal a) exponent offset) (binary h .pow (.decimal a') exponent offset) := by
  -- Only an exponent within the bounds comes to depend on the base.
  cases exponent with
  | integer n =>
    by_cases hn : 0 ≤ n ∧ n ≤ 65536
    · obtain ⟨k, rfl⟩ := Int.eq_ofNat_of_zero_le hn.1
      have hk : k ≤ 65536 := by exact_mod_cast hn.2
      obtain ⟨c, hc, hvalue⟩ := binary_power_decimal a hk (hscale k rfl hk)
      obtain ⟨c', hc', hvalue'⟩ := binary_power_decimal a' hk (hscale' k rfl hk)
      rw [hc, hc']
      exact .decimal (by rw [hvalue, hvalue', ha])
    · rw [binary_power_of_not _ hn, binary_power_of_not _ hn]
      exact .error _
  | nil | boolean | decimal | character | string | list => exact .error _

/-! ## §5 Quotients -/

/-- A quotient does not depend on how its divisor is written. -/
theorem binary_div_congr (a : Decimal) {b b' : Decimal} (hb : b'.value = b.value) (hscale : b.scale.natAbs < 2 ^ 32)
    (hscale' : b'.scale.natAbs < 2 ^ 32) :
    binary h .div (.decimal a) (.decimal b') offset = binary h .div (.decimal a) (.decimal b) offset := by
  have hquotient : decimalArithmetic .div a b' offset = decimalArithmetic .div a b offset := by
    unfold decimalArithmetic
    rw [div?_congr hscale hscale' hb]
  exact congrArg (Except.map Value.decimal) hquotient

theorem binary_div_integer (m : ℤ) {n : ℤ} (hn : n ≠ 0) :
    binary h .div (.integer m) (.integer n) offset = .ok (.integer (integerPart (m / n))) := by
  have hquotient : integerArithmetic .div m n offset = .ok (m.tdiv n) := if_neg hn
  change (integerArithmetic .div m n offset).map Value.integer = _
  rw [hquotient, tdiv_eq_integerPart]
  rfl

/-! ## §6 All operators -/

theorem binary_exact_congr {f : ℚ → ℚ → ℚ} (hop : op.exact? = some f) {a a' b b' : Decimal} (ha : a'.value = a.value)
    (hb : b'.value = b.value) :
    SameNumber (binary h op (.decimal a) (.decimal b) offset) (binary h op (.decimal a') (.decimal b') offset) := by
  obtain ⟨c, hc, hvalue⟩ := binary_decimals hop a b
  obtain ⟨c', hc', hvalue'⟩ := binary_decimals hop a' b'
  rw [hc, hc']
  exact .decimal (by rw [hvalue, hvalue', ha, hb])

theorem binary_test_congr {f : ℚ → ℚ → Bool} (hop : op.test? = some f) {a a' b b' : Decimal} (ha : a'.value = a.value)
    (hb : b'.value = b.value) :
    binary h op (.decimal a') (.decimal b') offset = binary h op (.decimal a) (.decimal b) offset := by
  rw [binary_test hop, binary_test hop, ha, hb]

theorem exact (h : Heap) (offset : Nat) : Exact h offset where
  integers := binary_integers
  decimals := binary_decimals
  test := binary_test
  integerPower m n hn := by rw [List.prod_replicate, binary_power_integer m hn]
  decimalPower a n hn hscale := by rw [List.prod_replicate]; exact binary_power_decimal a hn hscale
  power_add := binary_power_add
  invalidExponent := binary_power_of_not
  quotient := binary_div_integer

/-- Operators calculate exactly with the numbers that integers and decimals stand for, and come to the same with
decimals that stand for the same numbers. -/
theorem binary_respects_numbers (h : Heap) (offset : Nat) {a a' b b' : Decimal} (ha : a'.value = a.value)
    (hb : b'.value = b.value) : Respects h offset a a' b b' ∧ Exact h offset :=
  ⟨{ exact := fun hop => binary_exact_congr hop ha hb
     power := fun _ => binary_power_congr ha
     test := fun hop => binary_test_congr hop ha hb
     quotient := binary_div_congr a hb }, exact h offset⟩

/-- `2.0` and `2`, and `3.00` and `3`: a product is written with other zeros, a quotient by the same divisor is not. -/
theorem binary_respects_numbers_zeros : (Decimal.mk 2 0).value = (Decimal.mk 20 1).value ∧
    (Decimal.mk 3 0).value = (Decimal.mk 300 2).value ∧
    (Respects .empty 0 ⟨20, 1⟩ ⟨2, 0⟩ ⟨300, 2⟩ ⟨3, 0⟩ ∧ Exact .empty 0) ∧
    binary .empty .mul (.decimal ⟨20, 1⟩) (.decimal ⟨300, 2⟩) 0 = .ok (.decimal ⟨6000, 3⟩) ∧
    binary .empty .mul (.decimal ⟨2, 0⟩) (.decimal ⟨3, 0⟩) 0 = .ok (.decimal ⟨6, 0⟩) ∧
    binary .empty .div (.decimal ⟨20, 1⟩) (.decimal ⟨300, 2⟩) 0 = .ok (.decimal ⟨7, 1⟩) ∧
    binary .empty .div (.decimal ⟨20, 1⟩) (.decimal ⟨3, 0⟩) 0 = .ok (.decimal ⟨7, 1⟩) := by
  have htwo : (Decimal.mk 2 0).value = (Decimal.mk 20 1).value := same_iff.mp (by decide)
  have hthree : (Decimal.mk 3 0).value = (Decimal.mk 300 2).value := same_iff.mp (by decide)
  exact ⟨htwo, hthree, binary_respects_numbers .empty 0 htwo hthree, rfl, rfl, rfl, rfl⟩

end Operation

end BlockLang
