/-!
# Decimal digits

Writing numbers in base ten.  A long number is cut into two halves of equally many digits, which are written one
behind the other, so that writing it takes far less than one division of the whole number for each digit.

The main statement, `ofNat_eq_toDigits`, says that these are the digits of the number without leading zeros.
-/

namespace BlockLang

-- Powers of numbers are those of the core library here, also where the algebraic hierarchy is in scope.
attribute [local instance (high)] instPowNat

namespace Digits

/-! ## §1 Writing -/

/-- The last `2 ^ k` digits of a number, leading zeros included, followed by `after`. -/
def padded : (k n : Nat) → (after : List Char) → List Char
  | 0, n, after => Nat.digitChar (n % 10) :: after
  | k + 1, n, after =>
    let half := 10 ^ (2 ^ k : Nat)
    padded k (n / half) (padded k (n % half) after)

/-- A number of halvings that leaves single digits.  Three binary digits make less than one decimal digit. -/
def halvings (n : Nat) : Nat :=
  (n.log2 / 3 + 1).log2 + 1

/-- Numbers below this one are written digit by digit. -/
def shortLimit : Nat := 10 ^ (32 : Nat)

/-- The digits of a natural number. -/
def ofNat (n : Nat) : List Char :=
  if n < shortLimit then Nat.toDigits 10 n else (padded (halvings n) n []).dropWhile (· = '0')

/-- The digits of an integer, with a minus sign before those of a negative one. -/
def ofInt (z : Int) : List Char :=
  if z < 0 then '-' :: ofNat z.natAbs else ofNat z.natAbs

/-- The text of an integer. -/
def text (z : Int) : String :=
  String.ofList (ofInt z)

/-! ## §2 A fixed number of digits -/

/-- The last `w` digits of a number, leading zeros included. -/
def last : (w n : Nat) → List Char
  | 0, _ => []
  | w + 1, n => last w (n / 10) ++ [Nat.digitChar (n % 10)]

/-- The last digits do not depend on those before them. -/
theorem last_mod (w n : Nat) : last w (n % 10 ^ w) = last w n := by
  induction w generalizing n with
  | zero => rfl
  | succ w ih =>
    have hdiv : n % 10 ^ (w + 1) / 10 = n / 10 % 10 ^ w := by
      rw [Nat.pow_succ, Nat.mul_comm, Nat.mod_mul_right_div_self]
    have hmod : n % 10 ^ (w + 1) % 10 = n % 10 :=
      Nat.mod_mod_of_dvd n (Nat.dvd_mul_left 10 (10 ^ w))
    rw [last, last, hdiv, hmod, ih]

/-- More digits are the digits of what is left, followed by the last ones. -/
theorem last_add (v w n : Nat) : last (v + w) n = last v (n / 10 ^ w) ++ last w n := by
  induction w generalizing n with
  | zero => simp [last]
  | succ w ih =>
    have hdiv : n / 10 / 10 ^ w = n / 10 ^ (w + 1) := by
      rw [Nat.div_div_eq_div_mul, Nat.pow_succ, Nat.mul_comm]
    rw [← Nat.add_assoc, last, ih, hdiv, last, List.append_assoc]

/-- Cutting a number into halves writes its last digits. -/
theorem padded_eq (k n : Nat) (after : List Char) : padded k n after = last (2 ^ k) n ++ after := by
  induction k generalizing n after with
  | zero => rfl
  | succ k ih =>
    have hpow : 2 ^ (k + 1) = 2 ^ k + 2 ^ k := by rw [Nat.pow_succ, Nat.mul_two]
    rw [padded, ih, ih, last_mod, hpow, last_add, List.append_assoc]

/-- Zero is written with zeros alone. -/
theorem dropWhile_last_zero (w : Nat) : (last w 0).dropWhile (· = '0') = [] := by
  induction w with
  | zero => rfl
  | succ w ih =>
    rw [last, List.dropWhile_append, ih]
    rfl

/-- The digit of a number between one and nine is not a zero. -/
theorem digitChar_ne_zero {d : Nat} (hpos : 0 < d) (hlt : d < 10) : Nat.digitChar d ≠ '0' := by
  have hall : ∀ e : Fin 10, 0 < e.val → Nat.digitChar e.val ≠ '0' := by decide
  exact hall ⟨d, hlt⟩ hpos

/-- Without leading zeros the last digits of a number that has no more are its digits. -/
theorem dropWhile_last {w n : Nat} (hpos : 0 < n) (hlt : n < 10 ^ w) :
    (last w n).dropWhile (· = '0') = Nat.toDigits 10 n := by
  induction w generalizing n with
  | zero => omega
  | succ w ih =>
    rw [last, List.dropWhile_append]
    by_cases hsmall : n < 10
    · have hne : Nat.digitChar n ≠ '0' := digitChar_ne_zero hpos hsmall
      rw [Nat.div_eq_of_lt hsmall, dropWhile_last_zero, Nat.mod_eq_of_lt hsmall, Nat.toDigits_of_lt_base hsmall]
      simp [hne]
    · have hbase : 10 ≤ n := Nat.le_of_not_lt hsmall
      have hrest : n / 10 < 10 ^ w := by
        rw [Nat.pow_succ] at hlt
        omega
      have hne : (Nat.toDigits 10 (n / 10)).isEmpty = false := by simp
      rw [ih (by omega) hrest, hne, Nat.toDigits_of_base_le (by decide) hbase]
      rfl

/-! ## §3 The digits of a number -/

/-- After so many halvings every half is a single digit. -/
theorem lt_pow_halvings (n : Nat) : n < 10 ^ (2 ^ halvings n : Nat) := by
  have hbits : n.log2 + 1 ≤ 3 * (n.log2 / 3 + 1) := by omega
  calc n < 2 ^ (n.log2 + 1) := Nat.lt_log2_self
    _ ≤ 2 ^ (3 * (n.log2 / 3 + 1)) := Nat.pow_le_pow_right (by decide) hbits
    _ = 8 ^ (n.log2 / 3 + 1) := Nat.pow_mul 2 3 _
    _ ≤ 10 ^ (n.log2 / 3 + 1) := Nat.pow_le_pow_left (by decide) _
    _ ≤ 10 ^ (2 ^ halvings n : Nat) := Nat.pow_le_pow_right (by decide) (Nat.le_of_lt Nat.lt_log2_self)

/-- The digits that are written are those of the number. -/
theorem ofNat_eq_toDigits (n : Nat) : ofNat n = Nat.toDigits 10 n := by
  unfold ofNat
  split
  · rfl
  · rename_i hlong
    have hpos : 0 < n := Nat.lt_of_lt_of_le (by decide) (Nat.le_of_not_lt hlong)
    rw [padded_eq, List.append_nil, dropWhile_last hpos (lt_pow_halvings n)]

/-- The text of a natural number holds its digits alone. -/
theorem text_natCast (n : Nat) : text n = String.ofList (Nat.toDigits 10 n) := by
  have hsign : ¬ (n : Int) < 0 := Int.not_lt.mpr (Int.natCast_nonneg n)
  rw [text, ofInt, if_neg hsign, Int.natAbs_natCast, ofNat_eq_toDigits]

/-- The text of a negative number holds a minus sign and the digits of its magnitude. -/
theorem text_of_neg {z : Int} (h : z < 0) : text z = String.ofList ('-' :: Nat.toDigits 10 z.natAbs) := by
  rw [text, ofInt, if_pos h, ofNat_eq_toDigits]

end Digits

end BlockLang
