import BlockLang.Decimal.Basic

/-!
# Arithmetic on decimals

Sums, differences, products and powers are exact; a quotient keeps the scale of its dividend and is rounded to
the nearest multiple of `10 ^ (-scale)`, a half going to the even neighbour.  Which scale an exact result is
written with is a rule of its own, stated beside each operation.
-/

namespace BlockLang

-- Powers of numbers are those of the core library here, also where the algebraic hierarchy is in scope.
attribute [local instance (high)] instPowNat

namespace Decimal

/-! ## §1 Sums and differences -/

/-- How many more digits a summand gains when the other summand is zero: those that the zero has more, but
never more than fifteen. -/
def zeroPadding (summand zero : Decimal) : Int :=
  max 0 (min 15 (zero.scale - summand.scale))

/-- The exact sum, written with the larger scale.  A zero summand extends the other's scale by fifteen digits
at most. -/
def add (a b : Decimal) : Decimal :=
  if b.digits = 0 then a.withScale (a.scale + zeroPadding a b)
  else if a.digits = 0 then b.withScale (b.scale + zeroPadding b a)
  else ⟨a.digitsAt (commonScale a b) + b.digitsAt (commonScale a b), commonScale a b⟩

/-- The exact difference, written with the larger scale. -/
def sub (a b : Decimal) : Decimal :=
  ⟨a.digitsAt (commonScale a b) - b.digitsAt (commonScale a b), commonScale a b⟩

/-! ## §2 Products and powers -/

/-- A written one, such as `1` or `1.000`; beyond 38 digits after the point it is no longer recognised. -/
def isOne (d : Decimal) : Bool :=
  0 ≤ d.scale && d.scale ≤ 38 && d.digits == 10 ^ d.scale.toNat

/-- Removes trailing zeros from nonzero digits, lowering the scale by one for each. -/
def stripZeros (digits scale : Int) : Decimal :=
  if _h : digits ≠ 0 ∧ digits % 10 = 0 then stripZeros (digits / 10) (scale - 1) else ⟨digits, scale⟩
termination_by digits.natAbs
decreasing_by omega

/-- The shortest way to write the number: no trailing zeros, and scale 0 for zero. -/
def normalized (d : Decimal) : Decimal :=
  if d.digits = 0 then ⟨0, 0⟩ else stripZeros d.digits d.scale

/-- The exact product, whose scale is the sum of the scales.  Multiplying by a written one gives the other
factor in its shortest form. -/
def mul (a b : Decimal) : Decimal :=
  if a.isOne then b.normalized
  else if b.isOne then a.normalized
  else ⟨a.digits * b.digits, a.scale + b.scale⟩

/-- Scales are kept in 64 bits. -/
def scaleFits (s : Int) : Bool :=
  -(2 ^ (63 : Nat)) ≤ s && s < 2 ^ (63 : Nat)

/-- The exact power, whose scale is the base's scale times the exponent; none if that scale is not a 64-bit
number. -/
def pow? (base : Decimal) (exponent : Nat) : Option Decimal :=
  if scaleFits (base.scale * exponent) then some ⟨base.digits ^ exponent, base.scale * exponent⟩ else none

/-! ## §3 Quotients -/

/-- Whether the part that is lost when `n / d` is cut towards zero calls for a step away from zero: it is more than a
half, or a half beside an odd integer. -/
def roundsAway (n d : Int) : Bool :=
  match compare (2 * (n.tmod d).natAbs) d.natAbs with
  | .lt => false
  | .gt => true
  | .eq => (n.tdiv d).tmod 2 != 0

/-- The integer on the other side of `n / d` from the one it is cut to. -/
def stepAway (n d : Int) : Int :=
  if decide (n < 0) = decide (d < 0) then n.tdiv d + 1 else n.tdiv d - 1

/-- The integer nearest to `n / d` for `d ≠ 0`; midway between two integers, the even one. -/
def roundHalfEven (n d : Int) : Int :=
  if n.tmod d = 0 then n.tdiv d
  else if roundsAway n d then stepAway n d
  else n.tdiv d

/-- The quotient with the dividend's scale, rounded half to even; none if the divisor is zero or its scale does
not fit 32 bits. -/
def div? (a b : Decimal) : Option Decimal :=
  if b.digits = 0 ∨ 2 ^ (32 : Nat) ≤ b.scale.natAbs then none
  else if 0 ≤ b.scale then some ⟨roundHalfEven (a.digits * 10 ^ b.scale.natAbs) b.digits, a.scale⟩
  else some ⟨roundHalfEven a.digits (b.digits * 10 ^ b.scale.natAbs), a.scale⟩

end Decimal

end BlockLang
