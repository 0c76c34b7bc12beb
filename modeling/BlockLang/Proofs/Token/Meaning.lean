import BlockLang.Grammar.Expression
import BlockLang.Proofs.Token.Form

/-!
# What proper tokens mean

The kind of a proper token can be read off its first character, and a proper number, character or string token
denotes a literal.

## Main statements

- `Token.Proper.kind_of_mark`, `Token.Proper.kind_of_word`: punctuation is always an operator token and a word is
  always an identifier token.
- `Token.Proper.exists_literal`: reading a literal token never fails.
-/

namespace BlockLang

/-! ## §1 Numerals -/

namespace Numeral

variable {sign digits whole fraction : List Char}

/-- The number that digits denote after a sign or none. -/
def signed (sign digits : List Char) : Int :=
  if sign = [] then Nat.ofDigitChars 10 digits 0 else -Nat.ofDigitChars 10 digits 0

theorem readDigits_eq (h : ∀ d ∈ digits, d.isDigit) (acc : Nat) :
    readDigits acc digits = some (Nat.ofDigitChars 10 digits acc) := by
  induction digits generalizing acc with
  | nil => rfl
  | cons d rest ih =>
    have hd : d.isDigit := h d (List.mem_cons_self ..)
    rw [readDigits, if_pos hd, ih (fun e he => h e (List.mem_cons_of_mem _ he)), Nat.ofDigitChars_cons, digitValue,
      Nat.mul_comm]

/-- Digits after a sign or none are an integer. -/
theorem readInt?_eq (hsign : sign = [] ∨ sign = ['-']) (hne : digits ≠ []) (h : ∀ d ∈ digits, d.isDigit) :
    readInt? (sign ++ digits) = some (signed sign digits) := by
  obtain ⟨d, rest, rfl⟩ := List.exists_cons_of_ne_nil hne
  have hd : d.isDigit := h d (List.mem_cons_self ..)
  have hnat : readNat? (d :: rest) = some (Nat.ofDigitChars 10 (d :: rest) 0) := by
    rw [readNat?, if_pos hd, readDigits_eq fun e he => h e (List.mem_cons_of_mem _ he), Nat.ofDigitChars_cons,
      Nat.mul_zero, Nat.zero_add, digitValue]
  rcases hsign with rfl | rfl
  · have hminus : d ≠ '-' := by rintro rfl; exact absurd hd (by decide)
    have hplus : d ≠ '+' := by rintro rfl; exact absurd hd (by decide)
    rw [List.nil_append, readInt?, hnat]
    · rfl
    · simpa using hminus
    · simpa using hplus
  · rw [List.singleton_append, readInt?, hnat]
    rfl

theorem not_isExponentMark_of_isDigit {c : Char} (h : c.isDigit) : isExponentMark c = false := by
  unfold isExponentMark
  have he : c ≠ 'e' := by rintro rfl; exact absurd h (by decide)
  have hE : c ≠ 'E' := by rintro rfl; exact absurd h (by decide)
  simp [he, hE]

/-- The characters of a sign or none and of digits. -/
theorem of_mem_signed (hsign : sign = [] ∨ sign = ['-']) (h : ∀ d ∈ digits, d.isDigit) :
    ∀ c ∈ sign ++ digits, c ≠ '.' ∧ c ≠ '_' ∧ isExponentMark c = false := by
  intro c hc
  rcases List.mem_append.mp hc with hc | hc
  · rcases hsign with rfl | rfl
    · simp at hc
    · obtain rfl : c = '-' := by simpa using hc
      exact ⟨by decide, by decide, rfl⟩
  · have hdigit := h c hc
    refine ⟨?_, ?_, not_isExponentMark_of_isDigit hdigit⟩
    · rintro rfl
      exact absurd hdigit (by decide)
    · rintro rfl
      exact absurd hdigit (by decide)

/-- A mantissa counts the digits after its point. -/
theorem readMantissa?_eq (hsign : sign = [] ∨ sign = ['-']) (hne : whole ≠ []) (hwhole : ∀ d ∈ whole, d.isDigit)
    (hfraction : ∀ d ∈ fraction, d.isDigit) :
    readMantissa? (sign ++ whole ++ '.' :: fraction) = some ⟨signed sign (whole ++ fraction), fraction.length⟩ := by
  have hpoint : ∀ c ∈ sign ++ whole, (decide (c ≠ '.')) = true :=
    fun c hc => decide_eq_true (of_mem_signed hsign hwhole c hc).1
  have hlead : (sign ++ whole ++ '.' :: fraction).takeWhile (· ≠ '.') = sign ++ whole := by
    rw [List.takeWhile_append_of_pos hpoint]
    simp
  have htrail : (sign ++ whole ++ '.' :: fraction).dropWhile (· ≠ '.') = '.' :: fraction := by
    rw [List.dropWhile_append_of_pos hpoint]
    simp
  have hdigits : ∀ d ∈ whole ++ fraction, d.isDigit := by
    intro d hd
    rcases List.mem_append.mp hd with hd | hd
    · exact hwhole d hd
    · exact hfraction d hd
  have hcount : fraction.filter (· ≠ '_') = fraction :=
    List.filter_eq_self.mpr fun c hc => decide_eq_true (of_mem_signed (Or.inl rfl) hfraction c (by simpa using hc)).2.1
  unfold readMantissa?
  simp only [hlead, htrail, List.drop_succ_cons, List.drop_zero]
  rw [List.append_assoc, readInt?_eq hsign (by simp [hne]) hdigits, hcount]
  rfl

/-- A sign or none, digits, a point and digits are a decimal with as many digits after the point. -/
theorem readDecimal?_eq (hsign : sign = [] ∨ sign = ['-']) (hne : whole ≠ []) (hwhole : ∀ d ∈ whole, d.isDigit)
    (hfraction : ∀ d ∈ fraction, d.isDigit) :
    readDecimal? (sign ++ whole ++ '.' :: fraction) = some ⟨signed sign (whole ++ fraction), fraction.length⟩ := by
  have hmark : ∀ c ∈ sign ++ whole ++ '.' :: fraction, isExponentMark c = false := by
    intro c hc
    rcases List.mem_append.mp hc with hc | hc
    · exact (of_mem_signed hsign hwhole c hc).2.2
    · rcases List.mem_cons.mp hc with rfl | hc
      · rfl
      · exact not_isExponentMark_of_isDigit (hfraction c hc)
  have htake : (sign ++ whole ++ '.' :: fraction).takeWhile (fun c => !isExponentMark c) =
      sign ++ whole ++ '.' :: fraction :=
    List.takeWhile_eq_self_iff.mpr fun c hc => by simp [hmark c hc]
  have hdrop : (sign ++ whole ++ '.' :: fraction).dropWhile (fun c => !isExponentMark c) = [] :=
    List.dropWhile_eq_nil_iff.mpr fun c hc => by simp [hmark c hc]
  unfold readDecimal?
  rw [htake, hdrop, readMantissa?_eq hsign hne hwhole hfraction]
  rfl

/-- Digits and an exponent are a decimal, if its scale is a 64-bit number. -/
theorem readDecimal?_exponent_eq {sign' digits' : List Char} (hsign : sign = [] ∨ sign = ['-']) (hne : digits ≠ [])
    (h : ∀ d ∈ digits, d.isDigit) (hsign' : sign' = [] ∨ sign' = ['-']) (hne' : digits' ≠ [])
    (h' : ∀ d ∈ digits', d.isDigit) (hfits : Decimal.scaleFits (-signed sign' digits') = true) :
    readDecimal? (sign ++ digits ++ 'e' :: (sign' ++ digits')) =
      some ⟨signed sign digits, -signed sign' digits'⟩ := by
  have hlead : ∀ c ∈ sign ++ digits, (!isExponentMark c) = true :=
    fun c hc => by simp [(of_mem_signed hsign h c hc).2.2]
  have htake : (sign ++ digits ++ 'e' :: (sign' ++ digits')).takeWhile (fun c => !isExponentMark c) =
      sign ++ digits := by
    rw [List.takeWhile_append_of_pos hlead]
    simp [isExponentMark]
  have hdrop : (sign ++ digits ++ 'e' :: (sign' ++ digits')).dropWhile (fun c => !isExponentMark c) =
      'e' :: (sign' ++ digits') := by
    rw [List.dropWhile_append_of_pos hlead]
    simp [isExponentMark]
  have hexponent : readExponent? (sign' ++ digits') = some (signed sign' digits') := by
    have hmem : '_' ∉ sign' ++ digits' := fun hc => (of_mem_signed hsign' h' _ hc).2.1 rfl
    rw [readExponent?, if_neg hmem, readInt?_eq hsign' hne' h']
  have hmantissa : readMantissa? (sign ++ digits) = some ⟨signed sign digits, 0⟩ := by
    have hpoint : ∀ c ∈ sign ++ digits, (decide (c ≠ '.')) = true :=
      fun c hc => decide_eq_true (of_mem_signed hsign h c hc).1
    have hall : (sign ++ digits).takeWhile (· ≠ '.') = sign ++ digits := List.takeWhile_eq_self_iff.mpr hpoint
    have hnone : (sign ++ digits).dropWhile (· ≠ '.') = [] :=
      List.dropWhile_eq_nil_iff.mpr hpoint
    unfold readMantissa?
    simp only [hall, hnone, List.drop_nil, List.append_nil, readInt?_eq hsign hne h]
    rfl
  unfold readDecimal?
  rw [htake, hdrop, hmantissa]
  simp [hexponent, hfits]

end Numeral

/-! ## §2 Literal tokens -/

theorem not_startsName_of_isDigit {c : Char} (h : c.isDigit) : startsName c = false := by
  have hnine : c.val.toNat ≤ 57 := UInt32.le_iff_toNat_le.mp (of_decide_eq_true (Bool.and_eq_true_iff.mp h).2)
  have halpha : c.isAlpha = false := by
    change (c.isUpper || c.isLower) = false
    rw [Bool.or_eq_false_iff, Bool.eq_false_iff, Bool.eq_false_iff]
    refine ⟨fun hupper => ?_, fun hlower => ?_⟩
    · have hA : 65 ≤ c.val.toNat := UInt32.le_iff_toNat_le.mp (of_decide_eq_true hupper).1
      omega
    · have ha : 97 ≤ c.val.toNat := UInt32.le_iff_toNat_le.mp (of_decide_eq_true (Bool.and_eq_true_iff.mp hlower).1)
      omega
  have hat : c ≠ '@' := by rintro rfl; exact absurd h (by decide)
  simp [startsName, halpha, hat]

/-- A whole part has digits alone, and at least one. -/
theorem IsWhole.digits {text : List Char} (h : IsWhole text) : text ≠ [] ∧ ∀ d ∈ text, d.isDigit := by
  rcases h with rfl | ⟨c, rest, rfl, -, hall⟩
  · exact ⟨List.cons_ne_nil _ _, List.forall_mem_singleton.mpr rfl⟩
  · exact ⟨List.cons_ne_nil _ _, hall⟩

/-- An element denotes one character. -/
theorem IsElement.decode {quote : Char} {text : List Char} (h : IsElement quote text) :
    ∃ c, Escape.decode text = [c] := by
  rcases h with ⟨c, rfl, hc, -, -⟩ | ⟨c, rfl, -⟩
  · refine ⟨c, ?_⟩
    rw [Escape.decode]
    · rfl
    · simpa using hc
    · simp
  · exact ⟨Escape.denoted c, rfl⟩

/-- How the text of a token of some kind begins. A number needs a digit behind its sign. -/
def TokenKind.Begins : TokenKind → (c : Char) → (rest : List Char) → Prop
  | identifier, c, _ => startsName c = true
  | integer, c, rest => c.isDigit = true ∨ c = '-' ∧ rest ≠ []
  | decimal, c, rest => c.isDigit = true ∨ c = '-' ∧ rest ≠ []
  | character, c, _ => c = '\''
  | string, c, _ => c = '"'
  | operator, c, _ => startsName c = false

theorem begins_of_form {kind : TokenKind} {c : Char} {rest : List Char} (h : kind.Form (c :: rest)) :
    kind.Begins c rest := by
  cases kind with
  | identifier =>
    obtain ⟨_, _, heq, hname, -⟩ := h
    obtain ⟨rfl, -⟩ := List.cons.inj heq
    exact hname
  | integer =>
    rcases h with hwhole | ⟨whole, heq, hwhole, -⟩
    · exact .inl (hwhole.digits.2 c List.mem_cons_self)
    · obtain ⟨rfl, rfl⟩ := List.cons.inj heq
      exact .inr ⟨rfl, hwhole.digits.1⟩
  | decimal =>
    obtain ⟨sign, whole, fraction, heq, hsign, hwhole, -, -⟩ := h
    obtain ⟨hne, hall⟩ := hwhole.digits
    obtain ⟨d, more, rfl⟩ := List.exists_cons_of_ne_nil hne
    rcases hsign with rfl | rfl
    · obtain ⟨rfl, -⟩ := List.cons.inj heq
      exact .inl (hall c List.mem_cons_self)
    · obtain ⟨rfl, rfl⟩ := List.cons.inj heq
      exact .inr ⟨rfl, List.cons_ne_nil _ _⟩
  | character =>
    obtain ⟨body, heq, -⟩ := h
    exact (List.cons.inj heq).1
  | string =>
    obtain ⟨elements, heq, -⟩ := h
    exact (List.cons.inj heq).1
  | operator =>
    rcases h with ⟨_, heq, hc⟩ | ⟨p, hp, heq⟩
    · obtain ⟨rfl, -⟩ := List.cons.inj heq
      simp only [isOperatorChar, Bool.not_eq_true', Bool.or_eq_false_iff] at hc
      exact hc.1.1.1.2
    · have hfirst : ∀ p ∈ pairedOperators, startsName p.1 = false := by decide
      obtain ⟨rfl, -⟩ := List.cons.inj heq
      exact hfirst p hp

namespace Token.Proper

variable {t : Token}

/-- A number, a character or a string denotes a literal. -/
theorem exists_literal (h : t.Proper) (hkind : t.kind ≠ .identifier ∧ t.kind ≠ .operator) :
    ∃ value, Reader.literalOf? t = some value := by
  unfold Token.Proper at h
  unfold Reader.literalOf?
  cases hk : t.kind with
  | identifier => exact absurd hk hkind.1
  | operator => exact absurd hk hkind.2
  | integer =>
    rw [hk] at h
    rcases h with hwhole | ⟨whole, htext, hwhole, -⟩
    · obtain ⟨hne, hall⟩ := hwhole.digits
      have hread := Numeral.readInt?_eq (Or.inl rfl) hne hall
      rw [List.nil_append] at hread
      exact ⟨.integer _, by rw [hread]; rfl⟩
    · obtain ⟨hne, hall⟩ := hwhole.digits
      have hread := Numeral.readInt?_eq (Or.inr rfl) hne hall
      rw [List.singleton_append, ← htext] at hread
      exact ⟨.integer _, by rw [hread]; rfl⟩
  | decimal =>
    rw [hk] at h
    obtain ⟨sign, whole, fraction, htext, hsign, hwhole, -, hfraction⟩ := h
    obtain ⟨hne, hall⟩ := hwhole.digits
    exact ⟨.decimal _, by rw [htext, Numeral.readDecimal?_eq hsign hne hall hfraction]; rfl⟩
  | character =>
    rw [hk] at h
    obtain ⟨body, htext, hbody⟩ := h
    obtain ⟨c, hc⟩ := hbody.decode
    exact ⟨.character c, by simp [Escape.decodeQuoted, htext, hc]⟩
  | string => exact ⟨_, rfl⟩

/-! ## §3 Punctuation and words -/

/-- A text that begins with none of the characters that other tokens begin with is an operator. -/
theorem kind_of_mark {c : Char} {rest : List Char} (h : t.Proper) (htext : t.text.toList = c :: rest)
    (hname : startsName c = false) (hdigit : c.isDigit = false) (hsingle : c ≠ '\'') (hdouble : c ≠ '"')
    (hminus : c = '-' → rest = []) : t.kind = .operator := by
  have hbegins : t.kind.Begins c rest := begins_of_form (htext ▸ h)
  have hnumber : ¬ (c.isDigit = true ∨ c = '-' ∧ rest ≠ []) := by
    rintro (hd | ⟨hc, hrest⟩)
    · exact absurd hd (by simp [hdigit])
    · exact hrest (hminus hc)
  cases hk : t.kind with
  | operator => rfl
  | identifier =>
    rw [hk] at hbegins
    exact absurd hbegins (by simp [TokenKind.Begins, hname])
  | integer | decimal =>
    rw [hk] at hbegins
    exact absurd hbegins hnumber
  | character =>
    rw [hk] at hbegins
    exact absurd hbegins hsingle
  | string =>
    rw [hk] at hbegins
    exact absurd hbegins hdouble

/-- A text that begins as a name does is an identifier. -/
theorem kind_of_word {c : Char} {rest : List Char} (h : t.Proper) (htext : t.text.toList = c :: rest)
    (hname : startsName c = true) : t.kind = .identifier := by
  have hbegins : t.kind.Begins c rest := begins_of_form (htext ▸ h)
  have hother : ∀ d, startsName d = false → c ≠ d := by
    rintro d hd rfl
    exact absurd hname (by simp [hd])
  cases hk : t.kind with
  | identifier => rfl
  | integer | decimal =>
    rw [hk] at hbegins
    rcases hbegins with hdigit | ⟨hminus, -⟩
    · exact absurd hname (by simp [not_startsName_of_isDigit hdigit])
    · exact absurd hminus (hother _ (by decide))
  | character | string =>
    rw [hk] at hbegins
    exact absurd hbegins (hother _ (by decide))
  | operator =>
    rw [hk] at hbegins
    exact absurd hname (by simp [show startsName c = false from hbegins])

end Token.Proper

end BlockLang
