import BlockLang.Proofs.Token.Meaning

/-!
# Spelling literals

A text for each literal that reads back as that literal.  A decimal with digits after the point is spelled in its plain
form; any other one has an exponent, which the plain form could not tell from zeros.

## Main statements

- `literalOf?_spell`: a spelled literal denotes the literal.
- `Literal.isSpelling_spell`: its text begins as no name and no punctuation does.
-/

namespace BlockLang

/-! ## §1 Numbers -/

/-- What begins digits without leading zeros has none either. -/
theorem IsWhole.take {text : List Char} (h : IsWhole text) {k : Nat} (hpos : 0 < k) : IsWhole (text.take k) := by
  obtain ⟨k, rfl⟩ := Nat.exists_eq_add_one_of_ne_zero hpos.ne'
  rcases h with rfl | ⟨c, rest, rfl, hzero, hall⟩
  · exact .inl (by rw [List.take_succ_cons, List.take_nil])
  · rw [List.take_succ_cons]
    refine .inr ⟨c, rest.take k, rfl, hzero, fun d hd => hall d ?_⟩
    exact List.mem_cons.mpr ((List.mem_cons.mp hd).imp_right List.mem_of_mem_take)

namespace Digits

/-- The sign of an integer and the digits of its magnitude. -/
theorem ofInt_eq (z : Int) : ∃ sign, ofInt z = sign ++ Nat.toDigits 10 z.natAbs ∧ (sign = [] ∨ sign = ['-']) ∧
    Numeral.signed sign (Nat.toDigits 10 z.natAbs) = z := by
  unfold ofInt
  rw [ofNat_eq_toDigits]
  split_ifs with hneg
  · exact ⟨['-'], rfl, Or.inr rfl, by rw [Numeral.signed, if_neg (by simp), Nat.ofDigitChars_ten_toDigits]; omega⟩
  · exact ⟨[], rfl, Or.inl rfl, by rw [Numeral.signed, if_pos rfl, Nat.ofDigitChars_ten_toDigits]; omega⟩

theorem isDigit_of_mem (n : Nat) : ∀ c ∈ Nat.toDigits 10 n, c.isDigit :=
  fun _ h => Nat.isDigit_of_mem_toDigits (by decide) (by decide) h

theorem first_ne_zero {n : Nat} (hpos : 0 < n) : ∃ c rest, Nat.toDigits 10 n = c :: rest ∧ c ≠ '0' := by
  -- All digits but the last one are those of a tenth of the number.
  induction n using Nat.strong_induction_on with
  | _ n ih =>
    by_cases hsmall : n < 10
    · exact ⟨n.digitChar, [], Nat.toDigits_of_lt_base hsmall, digitChar_ne_zero hpos hsmall⟩
    · obtain ⟨c, rest, htenth, hc⟩ := ih (n / 10) (by omega) (by omega)
      refine ⟨c, rest ++ [(n % 10).digitChar], ?_, hc⟩
      rw [Nat.toDigits_of_base_le (by decide) (by omega), htenth, List.cons_append]

theorem isWhole_toDigits (n : Nat) : IsWhole (Nat.toDigits 10 n) := by
  rcases Nat.eq_zero_or_pos n with rfl | hpos
  · exact .inl rfl
  · obtain ⟨c, rest, hdigits, hc⟩ := first_ne_zero hpos
    exact .inr ⟨c, rest, hdigits, hc, hdigits ▸ isDigit_of_mem n⟩

end Digits

namespace Decimal

/-- The point stands among digits, and these denote the magnitude. -/
theorem placePoint_eq (n : Nat) {scale : Nat} (hpos : 0 < scale) :
    ∃ whole fraction, placePoint (Nat.toDigits 10 n) scale = whole ++ '.' :: fraction ∧ IsWhole whole ∧
      (∀ d ∈ fraction, d.isDigit) ∧ fraction.length = scale ∧ Nat.ofDigitChars 10 (whole ++ fraction) 0 = n := by
  unfold placePoint
  split_ifs with hlong
  · refine ⟨_, _, rfl, (Digits.isWhole_toDigits n).take (by omega), ?_, ?_, ?_⟩
    · exact fun d hd => Digits.isDigit_of_mem n d (List.mem_of_mem_drop hd)
    · rw [List.length_drop]
      omega
    · rw [List.take_append_drop, Nat.ofDigitChars_ten_toDigits]
  · refine ⟨['0'], List.replicate (scale - (Nat.toDigits 10 n).length) '0' ++ Nat.toDigits 10 n, rfl, .inl rfl,
      ?_, ?_, ?_⟩
    · intro d hd
      rcases List.mem_append.mp hd with hd | hd
      · rw [List.eq_of_mem_replicate hd]
        decide
      · exact Digits.isDigit_of_mem n d hd
    · rw [List.length_append, List.length_replicate]
      omega
    · rw [Nat.ofDigitChars_append, Nat.ofDigitChars_append, Nat.ofDigitChars_replicate_zero]
      simp [Nat.ofDigitChars_cons]

/-- The parts of the plain form of a decimal with digits after the point. -/
theorem plain_eq {d : Decimal} (hpos : 0 < d.scale) :
    ∃ sign whole fraction, d.plain.toList = sign ++ whole ++ '.' :: fraction ∧ (sign = [] ∨ sign = ['-']) ∧
      IsWhole whole ∧ (∀ c ∈ fraction, c.isDigit) ∧ (fraction.length : Int) = d.scale ∧
      Numeral.signed sign (whole ++ fraction) = d.digits := by
  obtain ⟨whole, fraction, hplace, hwhole, hfraction, hlength, hvalue⟩ :=
    placePoint_eq d.digits.natAbs (show 0 < d.scale.toNat by omega)
  have hmagnitude : d.plainMagnitude = whole ++ '.' :: fraction := by
    unfold plainMagnitude
    rw [if_neg (by omega), Digits.ofNat_eq_toDigits, hplace]
  unfold plain
  rw [hmagnitude, String.toList_ofList]
  split_ifs with hneg
  · refine ⟨['-'], whole, fraction, rfl, .inr rfl, hwhole, hfraction, by omega, ?_⟩
    rw [Numeral.signed, if_neg (by simp), hvalue]
    omega
  · refine ⟨[], whole, fraction, rfl, .inl rfl, hwhole, hfraction, by omega, ?_⟩
    rw [Numeral.signed, if_pos rfl, hvalue]
    omega

/-- The plain form of a decimal with digits after the point reads back as this decimal. -/
theorem readDecimal?_plain {d : Decimal} (hpos : 0 < d.scale) : Numeral.readDecimal? d.plain.toList = some d := by
  obtain ⟨sign, whole, fraction, htext, hsign, hwhole, hfraction, hscale, hdigits⟩ := plain_eq hpos
  obtain ⟨hne, hall⟩ := hwhole.digits
  rw [htext, Numeral.readDecimal?_eq hsign hne hall hfraction, hscale, hdigits]

/-- The text of a decimal that tells its scale. -/
def spell (d : Decimal) : String :=
  if 0 < d.scale then d.plain else String.ofList (Digits.ofInt d.digits ++ 'e' :: Digits.ofInt (-d.scale))

theorem readDecimal?_spell {d : Decimal} (h : scaleFits d.scale = true ∨ 0 < d.scale) :
    Numeral.readDecimal? d.spell.toList = some d := by
  unfold spell
  split_ifs with hpos
  · exact readDecimal?_plain hpos
  · have hfits : scaleFits d.scale = true := h.resolve_right hpos
    obtain ⟨sign, hdigits, hsign, hvalue⟩ := Digits.ofInt_eq d.digits
    obtain ⟨sign', hscale, hsign', hvalue'⟩ := Digits.ofInt_eq (-d.scale)
    rw [String.toList_ofList, hdigits, hscale]
    have hexponent : scaleFits (-Numeral.signed sign' (Nat.toDigits 10 (-d.scale).natAbs)) = true := by
      rw [hvalue', Int.neg_neg]
      exact hfits
    have hread := Numeral.readDecimal?_exponent_eq hsign Nat.toDigits_ne_nil (Digits.isDigit_of_mem d.digits.natAbs)
      hsign' Nat.toDigits_ne_nil (Digits.isDigit_of_mem (-d.scale).natAbs) hexponent
    rw [hread, hvalue, hvalue', Int.neg_neg]

end Decimal

/-! ## §2 Literals -/

/-- The kind and the text of a literal that a token of its own denotes; the other literals are reserved words. -/
def Literal.spell : Literal → TokenKind × String
  | .nil => (.identifier, "NIL")
  | .boolean true => (.identifier, "TRUE")
  | .boolean false => (.identifier, "FALSE")
  | .integer z => (.integer, Digits.text z)
  | .decimal d => (.decimal, d.spell)
  | .character c => (.character, String.ofList ('\'' :: (Escape.encode [c] ++ ['\''])))
  | .string x => (.string, String.ofList ('"' :: (Escape.encode x.toList ++ ['"'])))

/-- Whether a literal has a token of its own that denotes it. -/
def Literal.HasToken : Literal → Prop
  | .nil | .boolean _ => False
  | .decimal d => Decimal.scaleFits d.scale = true ∨ 0 < d.scale
  | .integer _ | .character _ | .string _ => True

theorem decodeQuoted_encode (quote : Char) (text : List Char) :
    Escape.decodeQuoted (String.ofList (quote :: (Escape.encode text ++ [quote]))) = String.ofList text := by
  unfold Escape.decodeQuoted
  rw [String.toList_ofList, List.drop_succ_cons, List.drop_zero, List.dropLast_concat, Escape.decode_encode]

/-- A written character is one element of a literal, whichever quotes stand around it. -/
theorem isElement_encodeChar {quote : Char} (hquote : quote = '\'' ∨ quote = '"') (c : Char) :
    IsElement quote (Escape.encodeChar c) := by
  unfold Escape.encodeChar
  split_ifs with h1 h2 h3 h4 h5 h6 h7
  -- Seven characters are escaped, among them both quotes and the line breaks.
  · exact Or.inr ⟨_, rfl, rfl⟩
  · exact Or.inr ⟨_, rfl, rfl⟩
  · exact Or.inr ⟨_, rfl, rfl⟩
  · exact Or.inr ⟨_, rfl, rfl⟩
  · exact Or.inr ⟨_, rfl, rfl⟩
  · exact Or.inr ⟨_, rfl, rfl⟩
  · exact Or.inr ⟨_, rfl, rfl⟩
  · refine Or.inl ⟨c, rfl, h1, ?_, by simp [CharClass.lineBreak, h4, h6]⟩
    rcases hquote with rfl | rfl
    · exact h3
    · exact h2

theorem literalOf?_spell {value : Literal} (h : value.HasToken) (offset : Nat) :
    Reader.literalOf? ⟨value.spell.1, value.spell.2, offset⟩ = some value := by
  cases value with
  | nil => exact h.elim
  | boolean b => exact h.elim
  | integer z =>
    obtain ⟨sign, hdigits, hsign, hvalue⟩ := Digits.ofInt_eq z
    have hread := Numeral.readInt?_eq hsign Nat.toDigits_ne_nil (Digits.isDigit_of_mem z.natAbs)
    simp [Reader.literalOf?, Literal.spell, Digits.text, hdigits, hread, hvalue]
  | decimal d => simp [Reader.literalOf?, Literal.spell, Decimal.readDecimal?_spell h]
  | character c => simp only [Reader.literalOf?, Literal.spell, decodeQuoted_encode, String.toList_ofList]
  | string x => simp only [Reader.literalOf?, Literal.spell, decodeQuoted_encode, String.ofList_toList]

/-- The kind of a literal token can be told from its literal. -/
theorem kind_of_literalOf? {t : Token} {value : Literal} (h : Reader.literalOf? t = some value) :
    t.kind = value.spell.1 := by
  unfold Reader.literalOf? at h
  split at h
  · rename_i hkind
    obtain ⟨z, -, rfl⟩ := Option.map_eq_some_iff.mp h
    exact hkind
  · rename_i hkind
    obtain ⟨d, -, rfl⟩ := Option.map_eq_some_iff.mp h
    exact hkind
  · rename_i hkind
    split at h
    · obtain rfl := Option.some.inj h
      exact hkind
    · simp at h
  · rename_i hkind
    obtain rfl := Option.some.inj h
    exact hkind
  · simp at h
  · simp at h

/-- The texts that begin as numbers and quoted literals do. -/
def IsSpelling (text : List Char) : Prop :=
  ∃ c rest, text = c :: rest ∧ (c.isDigit ∨ c = '\'' ∨ c = '"' ∨ (c = '-' ∧ rest ≠ []))

theorem isSpelling_signed {sign digits : List Char} (hsign : sign = [] ∨ sign = ['-']) (hne : digits ≠ [])
    (h : ∀ d ∈ digits, d.isDigit) (more : List Char) : IsSpelling (sign ++ digits ++ more) := by
  obtain ⟨d, rest, rfl⟩ := List.exists_cons_of_ne_nil hne
  rcases hsign with rfl | rfl
  · exact ⟨d, rest ++ more, rfl, Or.inl (h d (List.mem_cons_self ..))⟩
  · exact ⟨'-', d :: rest ++ more, rfl, Or.inr (Or.inr (Or.inr ⟨rfl, List.cons_ne_nil _ _⟩))⟩

theorem Decimal.isSpelling_spell (d : Decimal) : IsSpelling d.spell.toList := by
  unfold spell
  split_ifs with hpos
  · obtain ⟨sign, whole, fraction, htext, hsign, hwhole, -⟩ := plain_eq hpos
    obtain ⟨hne, hall⟩ := hwhole.digits
    rw [htext]
    exact isSpelling_signed hsign hne hall ('.' :: fraction)
  · obtain ⟨sign, hdigits, hsign, -⟩ := Digits.ofInt_eq d.digits
    rw [String.toList_ofList, hdigits]
    exact isSpelling_signed hsign Nat.toDigits_ne_nil (Digits.isDigit_of_mem d.digits.natAbs) _

theorem Literal.isSpelling_spell {value : Literal} (h : value.HasToken) : IsSpelling value.spell.2.toList := by
  cases value with
  | nil => exact h.elim
  | boolean b => exact h.elim
  | integer z =>
    obtain ⟨sign, hdigits, hsign, -⟩ := Digits.ofInt_eq z
    have hspelling := isSpelling_signed hsign Nat.toDigits_ne_nil (Digits.isDigit_of_mem z.natAbs) []
    rw [List.append_nil, ← hdigits] at hspelling
    simpa [Literal.spell, Digits.text] using hspelling
  | decimal d => exact d.isSpelling_spell
  | character c => exact ⟨'\'', _, String.toList_ofList, Or.inr (Or.inl rfl)⟩
  | string x => exact ⟨'"', _, String.toList_ofList, Or.inr (Or.inr (Or.inl rfl))⟩

end BlockLang
