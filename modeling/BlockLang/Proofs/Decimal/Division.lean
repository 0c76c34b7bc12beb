import BlockLang.Decimal.Arithmetic
import BlockLang.Proofs.Decimal.Value
import Mathlib.Algebra.Order.Floor.Ring
import Mathlib.Tactic.FieldSimp
import Mathlib.Tactic.Linarith
import Mathlib.Tactic.Ring

/-!
# Rounded quotients

Every number has exactly one integer that is nearest to it, if ties go to the even neighbour.  A quotient of decimals is
that integer for the exact quotient, counted in units of the dividend's last place; so it depends on what the operands
stand for and not on how they are written, and it changes its sign with either of them.

## Main definition

- `IsNearest`: the nearest integer, ties to even.

## Main statement

- `Decimal.div?_correctly_rounded`: what a quotient is.
-/

namespace BlockLang

/-! ## §1 The nearest integer -/

/-- No integer is nearer to `x` than `r`, and if another one is as near, `r` is even. -/
structure IsNearest (r : ℤ) (x : ℚ) : Prop where
  error_le : |(r : ℚ) - x| ≤ 1 / 2
  even_of_tie : |(r : ℚ) - x| = 1 / 2 → Even r

namespace IsNearest

variable {r r' : ℤ} {x : ℚ}

/-- Integers that are nearest to one number are the same: different ones would be neighbours, both at half a unit from
it, and both even. -/
theorem unique (h : IsNearest r x) (h' : IsNearest r' x) : r = r' := by
  by_contra hne
  wlog hlt : r < r' generalizing r r'
  · exact this h' h (Ne.symm hne) (lt_of_le_of_ne (not_lt.mp hlt) (Ne.symm hne))
  obtain ⟨hlow, hhigh⟩ := abs_le.mp h.error_le
  obtain ⟨hlow', hhigh'⟩ := abs_le.mp h'.error_le
  have hgap : (r : ℚ) + 1 ≤ r' := by exact_mod_cast hlt
  have hbelow : (r : ℚ) - x = -(1 / 2) := by linarith
  have habove : (r' : ℚ) - x = 1 / 2 := by linarith
  have heven : Even r := h.even_of_tie (by rw [hbelow, abs_neg, abs_of_pos one_half_pos])
  have heven' : Even r' := h'.even_of_tie (by rw [habove, abs_of_pos one_half_pos])
  have hnext : r' = r + 1 := by
    have hcast : (r' : ℚ) = (r + 1 : ℤ) := by
      push_cast
      linarith
    exact_mod_cast hcast
  rw [hnext, Int.even_add_one] at heven'
  exact heven' heven

theorem neg (h : IsNearest r x) : IsNearest (-r) (-x) := by
  have hdistance : |((-r : ℤ) : ℚ) - -x| = |(r : ℚ) - x| := by
    rw [Int.cast_neg, neg_sub_neg, abs_sub_comm]
  refine ⟨hdistance ▸ h.error_le, fun htie => ?_⟩
  exact (h.even_of_tie (hdistance ▸ htie)).neg

/-- Midway between two integers, the nearest one is even. -/
theorem even_of_midway (h : IsNearest r x) {k : ℤ} (hx : x = k + 1 / 2) : Even r := by
  apply h.even_of_tie
  -- The distance to an integer is an odd number of halves, and at most one.
  obtain ⟨hlow, hhigh⟩ := abs_le.mp h.error_le
  have hle : r ≤ k + 1 := by
    have hcast : (r : ℚ) ≤ k + 1 := by linarith
    exact_mod_cast hcast
  have hge : k ≤ r := by
    have hcast : (k : ℚ) ≤ r := by linarith
    exact_mod_cast hcast
  obtain rfl | rfl : r = k ∨ r = k + 1 := by omega
  · rw [hx, sub_add_cancel_left, abs_neg, abs_of_pos one_half_pos]
  · rw [hx, Int.cast_add, Int.cast_one, add_sub_add_left_eq_sub, sub_half, abs_of_pos one_half_pos]

/-- How near an integer is to a fraction can be told without dividing. -/
theorem div_iff {n d : ℤ} (hd : d ≠ 0) :
    IsNearest r (n / d) ↔ 2 * |r * d - n| ≤ |d| ∧ (2 * |r * d - n| = |d| → Even r) := by
  have hcast : (d : ℚ) ≠ 0 := by exact_mod_cast hd
  have hpos : (0 : ℚ) < |(d : ℚ)| := abs_pos.mpr hcast
  have hdistance : |(r : ℚ) - n / d| = ((|r * d - n| : ℤ) : ℚ) / ((|d| : ℤ) : ℚ) := by
    push_cast
    rw [← abs_div, sub_div, mul_div_cancel_right₀ _ hcast]
  have hle : |(r : ℚ) - n / d| ≤ 1 / 2 ↔ 2 * |r * d - n| ≤ |d| := by
    rw [hdistance, div_le_div_iff₀ (by exact_mod_cast hpos) two_pos, mul_comm, one_mul]
    exact_mod_cast Iff.rfl
  have heq : |(r : ℚ) - n / d| = 1 / 2 ↔ 2 * |r * d - n| = |d| := by
    rw [hdistance, div_eq_div_iff (by exact_mod_cast hpos.ne') two_ne_zero, mul_comm, one_mul]
    exact_mod_cast Iff.rfl
  constructor
  · intro h
    exact ⟨hle.mp h.error_le, fun htie => h.even_of_tie (heq.mpr htie)⟩
  · rintro ⟨herror, heven⟩
    exact ⟨hle.mpr herror, fun htie => heven (heq.mp htie)⟩

end IsNearest

namespace Decimal

variable {n d : ℤ}

/-- What is lost when a fraction is cut towards zero, in parts of the denominator. -/
theorem distance_tdiv : |n.tdiv d * d - n| = (n.tmod d).natAbs := by
  have hsplit := Int.tdiv_mul_add_tmod n d
  have hloss : n.tdiv d * d - n = -n.tmod d := by omega
  rw [hloss, abs_neg, Int.abs_eq_natAbs]

/-- The rest of a cut fraction lies on the same side of zero as the numerator, so one step away from zero goes beyond
the fraction, by what is missing to the whole denominator. -/
theorem distance_stepAway (hd : d ≠ 0) : |stepAway n d * d - n| = d.natAbs - (n.tmod d).natAbs := by
  have hsplit := Int.tdiv_mul_add_tmod n d
  have hlt : (n.tmod d).natAbs < d.natAbs := by
    rw [Int.natAbs_tmod]
    exact Nat.mod_lt _ (Int.natAbs_pos.mpr hd)
  have hnonneg : 0 ≤ n → 0 ≤ n.tmod d := Int.tmod_nonneg d
  have hnonpos : n ≤ 0 → n.tmod d ≤ 0 := by
    intro hn
    have hneg : 0 ≤ (-n).tmod d := Int.tmod_nonneg d (by omega)
    rw [Int.neg_tmod] at hneg
    omega
  rw [Int.abs_eq_natAbs, stepAway]
  split
  · rename_i hsame
    have hside : n < 0 ↔ d < 0 := decide_eq_decide.mp hsame
    rw [add_mul, one_mul]
    omega
  · rename_i hother
    have hside : ¬ (n < 0 ↔ d < 0) := fun h => hother (decide_eq_decide.mpr h)
    rw [sub_mul, one_mul]
    omega

theorem roundsAway_iff : roundsAway n d ↔ d.natAbs < 2 * (n.tmod d).natAbs ∨
    2 * (n.tmod d).natAbs = d.natAbs ∧ (n.tdiv d).tmod 2 ≠ 0 := by
  unfold roundsAway
  cases hcompare : compare (2 * (n.tmod d).natAbs) d.natAbs with
  | lt =>
    have hless := Nat.compare_eq_lt.mp hcompare
    exact ⟨nofun, by omega⟩
  | gt =>
    have hmore := Nat.compare_eq_gt.mp hcompare
    exact ⟨fun _ => .inl hmore, fun _ => rfl⟩
  | eq =>
    have hhalf := Nat.compare_eq_eq.mp hcompare
    simp only [bne_iff_ne, hhalf, lt_irrefl, true_and, false_or]

/-- Rounding a fraction half to even yields the integer nearest to it. -/
theorem isNearest_roundHalfEven (hd : d ≠ 0) : IsNearest (roundHalfEven n d) (n / d) := by
  rw [IsNearest.div_iff hd, roundHalfEven, Int.abs_eq_natAbs d]
  have hparity := Int.tmod_two_eq (n.tdiv d)
  have hhalves := Int.tdiv_mul_add_tmod (n.tdiv d) 2
  split
  · rename_i hexact
    rw [distance_tdiv, hexact]
    exact ⟨by omega, by omega⟩
  -- A rest of less than half the denominator is dropped and one of more is made whole; at a half, one of two neighbours
  -- is even.
  split
  · rename_i haway
    have hmuch := roundsAway_iff.mp haway
    have hnext : stepAway n d = n.tdiv d + 1 ∨ stepAway n d = n.tdiv d - 1 := by
      unfold stepAway
      split
      · exact .inl rfl
      · exact .inr rfl
    rw [distance_stepAway hd]
    refine ⟨by omega, fun htie => Int.even_iff.mpr ?_⟩
    have hodd : (n.tdiv d).tmod 2 ≠ 0 := by omega
    omega
  · rename_i hcut
    have hlittle := mt roundsAway_iff.mpr hcut
    rw [distance_tdiv]
    refine ⟨by omega, fun htie => Int.even_iff.mpr ?_⟩
    have heven : (n.tdiv d).tmod 2 = 0 := by omega
    omega

/-! ## §2 Quotients -/

variable {a b : Decimal}

/-- The digits of a quotient are the integer nearest to the exact quotient in units of the dividend's last place. -/
theorem div?_eq_some (hscale : b.scale.natAbs < 2 ^ 32) (hb : b.digits ≠ 0) :
    ∃ q, a.div? b = some ⟨q, a.scale⟩ ∧ IsNearest q (a.digits / b.value) := by
  have hbound : ¬ (b.digits = 0 ∨ 2 ^ 32 ≤ b.scale.natAbs) := by omega
  have hpower : (10 : ℤ) ^ b.scale.natAbs ≠ 0 := by positivity
  unfold div?
  rw [if_neg hbound]
  split
  · rename_i hnonneg
    refine ⟨_, rfl, ?_⟩
    have hvalue : (a.digits / b.value : ℚ) = (a.digits * 10 ^ b.scale.natAbs : ℤ) / b.digits := by
      rw [value, b.unit_of_nonneg hnonneg, ← div_eq_mul_inv, div_div_eq_mul_div]
      push_cast
      rfl
    rw [hvalue]
    exact isNearest_roundHalfEven hb
  · rename_i hneg
    refine ⟨_, rfl, ?_⟩
    have hvalue : (a.digits / b.value : ℚ) = a.digits / (b.digits * 10 ^ b.scale.natAbs : ℤ) := by
      rw [value, b.unit_of_nonpos (by omega)]
      push_cast
      rfl
    rw [hvalue]
    exact isNearest_roundHalfEven (mul_ne_zero hb hpower)

theorem div?_eq_none_iff (hscale : b.scale.natAbs < 2 ^ 32) : a.div? b = none ↔ b.digits = 0 := by
  constructor
  · intro hnone
    by_contra hb
    obtain ⟨q, hq, -⟩ := div?_eq_some (a := a) hscale hb
    rw [hq] at hnone
    cases hnone
  · intro hb
    rw [div?, if_pos (Or.inl hb)]

/-- A quotient can be told from the exact one alone. -/
theorem div?_of_isNearest {q : ℤ} (hscale : b.scale.natAbs < 2 ^ 32) (hb : b.digits ≠ 0)
    (h : IsNearest q (a.digits / b.value)) : a.div? b = some ⟨q, a.scale⟩ := by
  obtain ⟨q', hdiv, hq'⟩ := div?_eq_some (a := a) hscale hb
  rw [hdiv, hq'.unique h]

/-- Where the exact quotient is the same or the opposite, so is the rounded one. -/
theorem div?_congr {b' : Decimal} (hscale : b.scale.natAbs < 2 ^ 32) (hscale' : b'.scale.natAbs < 2 ^ 32)
    (hvalue : b'.value = b.value) : a.div? b' = a.div? b := by
  by_cases hb : b.digits = 0
  · have hb' : b'.digits = 0 := by rwa [← value_eq_zero_iff, hvalue, value_eq_zero_iff]
    rw [(div?_eq_none_iff hscale).mpr hb, (div?_eq_none_iff hscale').mpr hb']
  · have hb' : b'.digits ≠ 0 := by rwa [Ne, ← value_eq_zero_iff, hvalue, value_eq_zero_iff]
    obtain ⟨q, hdiv, hq⟩ := div?_eq_some (a := a) hscale hb
    rw [hdiv, div?_of_isNearest hscale' hb' (hvalue ▸ hq)]

theorem neg_div? (hscale : b.scale.natAbs < 2 ^ 32) : (-a).div? b = (a.div? b).map (-·) := by
  by_cases hb : b.digits = 0
  · rw [(div?_eq_none_iff hscale).mpr hb, (div?_eq_none_iff hscale).mpr hb, Option.map_none]
  · obtain ⟨q, hdiv, hq⟩ := div?_eq_some (a := a) hscale hb
    have hneg : IsNearest (-q) ((-a).digits / b.value) := by
      rw [digits_neg, Int.cast_neg, neg_div]
      exact hq.neg
    rw [hdiv, div?_of_isNearest hscale hb hneg]
    rfl

theorem div?_neg (hscale : b.scale.natAbs < 2 ^ 32) : a.div? (-b) = (a.div? b).map (-·) := by
  by_cases hb : b.digits = 0
  · have hb' : (-b).digits = 0 := neg_eq_zero.mpr hb
    rw [(div?_eq_none_iff hscale).mpr hb, (div?_eq_none_iff (b := -b) hscale).mpr hb', Option.map_none]
  · obtain ⟨q, hdiv, hq⟩ := div?_eq_some (a := a) hscale hb
    have hneg : IsNearest (-q) (a.digits / (-b).value) := by
      rw [value_neg, div_neg]
      exact hq.neg
    rw [hdiv, div?_of_isNearest (b := -b) hscale (neg_ne_zero.mpr hb) hneg]
    rfl

/-- **Quotients are correctly rounded.** There is a quotient unless the divisor is zero.  It has the scale of the
dividend and differs from the exact quotient by half a unit of its last place at most; midway between two multiples of
that unit, its digits are even.  It depends on the divisor's number alone, and changes its sign with either operand. -/
theorem div?_correctly_rounded (a b : Decimal) (hscale : b.scale.natAbs < 2 ^ 32) :
    (a.div? b = none ↔ b.value = 0) ∧
      (∀ q, a.div? b = some q → q.scale = a.scale ∧ |a.value / b.value - q.value| ≤ 10 ^ (-a.scale) / 2 ∧
        ∀ k : ℤ, a.value / b.value = (k + 1 / 2) * 10 ^ (-a.scale) → Even q.digits) ∧
      (∀ b' : Decimal, b'.scale.natAbs < 2 ^ 32 → b'.value = b.value → a.div? b' = a.div? b) ∧
      (-a).div? b = (a.div? b).map (-·) ∧ a.div? (-b) = (a.div? b).map (-·) := by
  refine ⟨?_, ?_, fun b' hscale' => div?_congr hscale hscale', neg_div? hscale, div?_neg hscale⟩
  · rw [div?_eq_none_iff hscale, value_eq_zero_iff]
  intro q hdiv
  have hb : b.digits ≠ 0 := by
    intro hzero
    rw [(div?_eq_none_iff hscale).mpr hzero] at hdiv
    cases hdiv
  obtain ⟨digits, hdiv', hnearest⟩ := div?_eq_some (a := a) hscale hb
  obtain rfl : (⟨digits, a.scale⟩ : Decimal) = q := Option.some.inj (hdiv'.symm.trans hdiv)
  -- In units of the last place the quotient is an integer.
  have hquotient : a.value / b.value = (a.digits / b.value) * a.unit := by
    rw [value, mul_div_right_comm]
  have hdistance : |a.value / b.value - value ⟨digits, a.scale⟩| = |(digits : ℚ) - a.digits / b.value| * a.unit := by
    have hunit : value ⟨digits, a.scale⟩ = digits * a.unit := rfl
    rw [hquotient, hunit, ← sub_mul, abs_mul, abs_of_pos a.unit_pos, abs_sub_comm]
  change _ ∧ _ ≤ a.unit / 2 ∧ ∀ k : ℤ, _ = _ * a.unit → _
  refine ⟨rfl, ?_, fun k htie => ?_⟩
  · calc |a.value / b.value - value ⟨digits, a.scale⟩|
        = |(digits : ℚ) - a.digits / b.value| * a.unit := hdistance
      _ ≤ 1 / 2 * a.unit := mul_le_mul_of_nonneg_right hnearest.error_le a.unit_pos.le
      _ = a.unit / 2 := by ring
  · have hmidway : (a.digits / b.value : ℚ) = k + 1 / 2 := by
      rw [hquotient] at htie
      exact mul_right_cancel₀ a.unit_ne_zero htie
    exact hnearest.even_of_midway hmidway

/-- The number minus one half over two is a tie, and its even neighbour is the one nearer to zero; written with another
scale, and with the sign moved to the divisor, the divisor is rounded to the same digits. -/
theorem div?_correctly_rounded_tie :
    (value ⟨-5, 1⟩ / value ⟨2, 0⟩ = (((-3 : ℤ) : ℚ) + 1 / 2) * 10 ^ (-1 : ℤ) ∧
      div? ⟨-5, 1⟩ ⟨2, 0⟩ = some ⟨-2, 1⟩ ∧ Even (-2 : ℤ)) ∧
      div? ⟨-5, 1⟩ ⟨20, 1⟩ = some ⟨-2, 1⟩ ∧ div? ⟨-5, 1⟩ ⟨-2, 0⟩ = some ⟨2, 1⟩ := by
  obtain ⟨-, hsome, hsame, -, hneg⟩ := div?_correctly_rounded ⟨-5, 1⟩ ⟨2, 0⟩ (by decide)
  have hdiv : div? ⟨-5, 1⟩ ⟨2, 0⟩ = some ⟨-2, 1⟩ := rfl
  have htie : value ⟨-5, 1⟩ / value ⟨2, 0⟩ = (((-3 : ℤ) : ℚ) + 1 / 2) * 10 ^ (-1 : ℤ) := by
    norm_num [value, unit]
  refine ⟨⟨htie, hdiv, (hsome _ hdiv).2.2 _ htie⟩, ?_, ?_⟩
  · rw [hsame ⟨20, 1⟩ (by decide) (by norm_num [value, unit]), hdiv]
  · rw [hdiv] at hneg
    exact hneg

end Decimal

end BlockLang
