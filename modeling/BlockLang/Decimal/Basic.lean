import BlockLang.Digits

/-!
# Decimals

A decimal is an integer of digits together with a scale; it stands for the number `digits * 10 ^ (-scale)`.
The scale belongs to the datum: `1.0` and `1.00` are the same number written with different precision, so
they are equal under `Decimal.same` and yet different decimals.

The module holds the type, its order by value and its plain printed form.
-/

namespace BlockLang

-- Powers of numbers are those of the core library here, also where the algebraic hierarchy is in scope.
attribute [local instance (high)] instPowNat

/-- The number `digits * 10 ^ (-scale)`, remembered with its scale. -/
structure Decimal where
  /-- All digits, with the sign, as one integer. -/
  digits : Int
  /-- The number of digits after the point; negative for trailing zeros left unwritten. -/
  scale : Int
deriving DecidableEq, Repr, Inhabited

namespace Decimal

/-! ## §1 Order by value -/

/-- The number `x * 10 ^ k`.  The power is not calculated for `x = 0`, however large `k` is. -/
def shift (x : Int) (k : Nat) : Int :=
  if x = 0 then 0 else x * 10 ^ k

/-- The digits of `d` once it is written with scale `s`, for any `s` that is at least its own scale. -/
def digitsAt (d : Decimal) (s : Int) : Int :=
  shift d.digits (s - d.scale).toNat

/-- The number `d` written with scale `s`, for any `s` that is at least its own scale. -/
def withScale (d : Decimal) (s : Int) : Decimal :=
  ⟨d.digitsAt s, s⟩

/-- The least scale at which both numbers can be written exactly. -/
def commonScale (a b : Decimal) : Int :=
  max a.scale b.scale

/-- The order of `x` and `y * 10 ^ k`.  A power with more digits than `x` has binary ones need not be calculated:
then the sign of `y` decides. -/
def orderShifted (x y : Int) (k : Nat) : Ordering :=
  if y = 0 then compare x 0
  else if x.natAbs.log2 < k then (if 0 < y then .lt else .gt)
  else compare x (y * 10 ^ k)

/-- Order by value: the number with the smaller scale is written with the larger one, and the digits are
compared. -/
def order (a b : Decimal) : Ordering :=
  if b.scale ≤ a.scale then orderShifted a.digits b.digits (a.scale - b.scale).toNat
  else (orderShifted b.digits a.digits (b.scale - a.scale).toNat).swap

/-- The two decimals denote one number, whatever their scales. -/
def same (a b : Decimal) : Bool :=
  a.order b == .eq

/-! ## §2 What the order compares -/

/-- Shifting multiplies by a power of ten. -/
theorem shift_eq (x : Int) (k : Nat) : shift x k = x * 10 ^ k := by
  by_cases h : x = 0 <;> simp [shift, h]

/-- The digits at a larger scale have more zeros. -/
theorem digitsAt_eq (d : Decimal) (s : Int) : d.digitsAt s = d.digits * 10 ^ (s - d.scale).toNat :=
  shift_eq _ _

/-- A number is less than a power of ten with more digits than it has binary ones. -/
theorem natAbs_lt_pow {x : Int} {k : Nat} (h : x.natAbs.log2 < k) : x.natAbs < 10 ^ k :=
  calc x.natAbs < 2 ^ (x.natAbs.log2 + 1) := Nat.lt_log2_self
    _ ≤ 2 ^ k := Nat.pow_le_pow_right (by decide) h
    _ ≤ 10 ^ k := Nat.pow_le_pow_left (by decide) k

/-- A nonzero number is at least as large as the power of ten that it is shifted by. -/
theorem pow_le_mul_pow {y : Int} (k : Nat) (h : 0 < y) : (10 : Int) ^ k ≤ y * 10 ^ k := by
  have hpow : (0 : Int) ≤ 10 ^ k := Int.pow_nonneg (by decide)
  have hle := Int.mul_le_mul_of_nonneg_right (Int.add_one_le_of_lt h) hpow
  rwa [Int.zero_add, Int.one_mul] at hle

/-- The shortcut decides as the comparison with the power does. -/
theorem orderShifted_eq (x y : Int) (k : Nat) : orderShifted x y k = compare x (y * 10 ^ k) := by
  unfold orderShifted
  split
  · simp [*]
  split
  · rename_i hzero hlog
    have hx : (x.natAbs : Int) < 10 ^ k := by exact_mod_cast natAbs_lt_pow hlog
    split
    · rename_i hpos
      have hle := pow_le_mul_pow k hpos
      exact (Int.compare_eq_lt.mpr (by omega)).symm
    · rename_i hneg
      have hle := pow_le_mul_pow k (show 0 < -y by omega)
      rw [Int.neg_mul] at hle
      exact (Int.compare_eq_gt.mpr (by omega)).symm
  · rfl

/-- The digits at the number's own scale are its digits. -/
theorem digitsAt_scale (d : Decimal) : d.digitsAt d.scale = d.digits := by
  simp [digitsAt_eq]

/-- The order is that of the digits at the common scale. -/
theorem order_eq (a b : Decimal) :
    a.order b = compare (a.digitsAt (commonScale a b)) (b.digitsAt (commonScale a b)) := by
  unfold order commonScale
  split
  · rename_i h
    rw [Int.max_eq_left h, digitsAt_scale, digitsAt_eq, orderShifted_eq]
  · rename_i h
    rw [Int.max_eq_right (by omega), digitsAt_scale, digitsAt_eq, orderShifted_eq, Int.compare_swap]

/-! ## §3 Plain printed form -/

/-- Sets the point into the digits of a magnitude so that `scale` of them come after it, with at least one digit
before it. -/
def placePoint (magnitude : List Char) (scale : Nat) : List Char :=
  if scale < magnitude.length then
    magnitude.take (magnitude.length - scale) ++ '.' :: magnitude.drop (magnitude.length - scale)
  else
    '0' :: '.' :: (List.replicate (scale - magnitude.length) '0' ++ magnitude)

/-- The printed form of the absolute value, without an exponent: a positive scale gives exactly that many digits
after the point, any other scale appends the zeros that it leaves unwritten. -/
def plainMagnitude (d : Decimal) : List Char :=
  let magnitude := Digits.ofNat d.digits.natAbs
  if d.scale ≤ 0 then magnitude ++ List.replicate d.scale.natAbs '0'
  else placePoint magnitude d.scale.toNat

/-- The printed form without an exponent. -/
def plain (d : Decimal) : String :=
  String.ofList (if d.digits < 0 then '-' :: d.plainMagnitude else d.plainMagnitude)

end Decimal

end BlockLang
