import BlockLang.Proofs.Decimal.Value
import BlockLang.Proofs.Token.Quoted
import BlockLang.Proofs.Token.Spelling
import BlockLang.Proofs.Token.Tiling
import Mathlib.Tactic.Ring

/-!
# Printed numbers are tokens

A printed number has no leading zeros, and a minus sign only before something that is not a zero alone, so it has the
form of a number token.  A text of that form is one token, wherever it stands, unless the number could go on behind it:
the scanner takes the longest beginning that has a form, and that cannot reach into a character that no number has.

## Main statements

- `Digits.isInteger_text`, `Decimal.isDecimal_plain`, `Decimal.plain_of_nonpos`: the forms of printed numbers.
- `Scan.tokens_of_number`: a number and what stands behind it are scanned one after the other.
-/

namespace BlockLang

/-! ## §1 The forms of printed numbers -/

namespace Digits

theorem isInteger_text (z : Int) : IsInteger (text z).toList := by
  have hwhole := isWhole_toDigits z.natAbs
  unfold text ofInt
  rw [ofNat_eq_toDigits, String.toList_ofList]
  split_ifs with hneg
  · refine .inr ⟨_, rfl, hwhole, fun hzero => ?_⟩
    obtain ⟨c, rest, hdigits, hc⟩ := first_ne_zero (show 0 < z.natAbs by omega)
    rw [hdigits] at hzero
    exact hc (List.cons.inj hzero).1
  · exact .inl hwhole

/-- A number is multiplied by a power of ten by writing zeros behind it. -/
theorem toDigits_mul_pow {n : Nat} (hpos : 0 < n) (k : Nat) :
    Nat.toDigits 10 (n * 10 ^ k) = Nat.toDigits 10 n ++ List.replicate k '0' := by
  induction k with
  | zero => rw [pow_zero, Nat.mul_one, List.replicate_zero, List.append_nil]
  | succ k ih =>
    have htenth : n * 10 ^ (k + 1) = 10 * (n * 10 ^ k) := by ring
    have hscaled : 0 < n * 10 ^ k := by positivity
    rw [htenth, Nat.toDigits_of_base_le (by decide) (by omega), Nat.mul_div_cancel_left _ (by decide),
      Nat.mul_mod_right, ih, List.append_assoc, List.replicate_succ']
    rfl

end Digits

namespace Decimal

variable {d : Decimal}

theorem isDecimal_plain (hpos : 0 < d.scale) : IsDecimal d.plain.toList := by
  obtain ⟨sign, whole, fraction, htext, hsign, hwhole, hfraction, hscale, -⟩ := plain_eq hpos
  refine ⟨sign, whole, fraction, htext, hsign, hwhole, ?_, hfraction⟩
  rintro rfl
  rw [List.length_nil] at hscale
  omega

/-- Without digits after the point, a decimal that is not zero is printed like the integer that it stands for. -/
theorem plain_of_nonpos (hscale : d.scale ≤ 0) (hne : d.digits ≠ 0) :
    ∃ n : Int, d.plain = Digits.text n ∧ (n : ℚ) = d.value := by
  refine ⟨d.digits * 10 ^ d.scale.natAbs, ?_, ?_⟩
  · have hpower : (0 : Int) < 10 ^ d.scale.natAbs := by positivity
    have hsign : d.digits * 10 ^ d.scale.natAbs < 0 ↔ d.digits < 0 := by
      constructor
      · exact fun hneg => neg_of_mul_neg_left hneg hpower.le
      · exact fun hneg => mul_neg_of_neg_of_pos hneg hpower
    have hmagnitude : (d.digits * 10 ^ d.scale.natAbs).natAbs = d.digits.natAbs * 10 ^ d.scale.natAbs := by
      rw [Int.natAbs_mul, Int.natAbs_pow]
      rfl
    unfold plain plainMagnitude Digits.text Digits.ofInt
    simp only [if_pos hscale, hsign, hmagnitude, Digits.ofNat_eq_toDigits,
      Digits.toDigits_mul_pow (Int.natAbs_pos.mpr hne)]
  · rw [value, unit_of_nonpos d hscale]
    push_cast
    rfl

end Decimal

namespace Scan

/-! ## §2 Numbers among other text -/

/-- The characters of numbers. -/
def IsNumberChar (c : Char) : Prop :=
  c.isDigit ∨ c = '-' ∨ c = '.'

variable {kind : TokenKind} {text more : List Char}

theorem isNumberChar_of_mem (hkind : kind = .integer ∨ kind = .decimal) (h : kind.Form text) :
    ∀ c ∈ text, IsNumberChar c := by
  have hsigned : ∀ {sign whole : List Char}, sign = [] ∨ sign = ['-'] → IsWhole whole →
      ∀ c ∈ sign ++ whole, IsNumberChar c := by
    intro sign whole hsign hwhole c hc
    rcases List.mem_append.mp hc with hc | hc
    · rcases hsign with rfl | rfl
      · cases hc
      · exact .inr (.inl (List.mem_singleton.mp hc))
    · exact .inl (hwhole.digits.2 c hc)
  rcases hkind with rfl | rfl
  · rcases h with hwhole | ⟨whole, rfl, hwhole, -⟩
    · exact hsigned (.inl rfl) hwhole
    · exact hsigned (.inr rfl) hwhole
  · obtain ⟨sign, whole, fraction, rfl, hsign, hwhole, -, hfraction⟩ := h
    refine List.forall_mem_append.mpr ⟨hsigned hsign hwhole, List.forall_mem_cons.mpr ⟨.inr (.inr rfl), ?_⟩⟩
    exact fun c hc => .inl (hfraction c hc)

/-- The point tells the two kinds of numbers apart. -/
theorem eq_decimal_iff (hkind : kind = .integer ∨ kind = .decimal) (h : kind.Form text) :
    kind = .decimal ↔ '.' ∈ text := by
  rcases hkind with rfl | rfl
  · refine iff_of_false nofun fun hpoint => ?_
    have hnot : ∀ {whole : List Char}, IsWhole whole → '.' ∉ whole :=
      fun hwhole hmem => absurd (hwhole.digits.2 '.' hmem) (by decide)
    rcases h with hwhole | ⟨whole, rfl, hwhole, -⟩
    · exact hnot hwhole hpoint
    · exact hnot hwhole ((List.mem_cons.mp hpoint).resolve_left (by decide))
  · obtain ⟨sign, whole, fraction, rfl, -⟩ := h
    exact iff_of_true rfl (List.mem_append_right _ List.mem_cons_self)

theorem kind_of_number? {c : Char} {rest : List Char} {n : Nat} (h : number? c rest = some (kind, n)) :
    kind = .integer ∨ kind = .decimal := by
  unfold number? at h
  split at h
  · cases h
  split at h
  · cases h
    exact .inr rfl
  · split_ifs at h
    cases h
    exact .inl rfl

/-- The scanner takes a number, and nothing behind it that does not belong to numbers. -/
theorem number?_of_form {c : Char} {rest : List Char} (hkind : kind = .integer ∨ kind = .decimal)
    (h : kind.Form (c :: rest)) (hmore : ∀ x ∈ more.head?, ¬ IsNumberChar x) :
    ∃ n, number? c (rest ++ more) = some (kind, n) ∧ rest.length ≤ n ∧ (rest ++ more).take n = rest := by
  obtain ⟨found, n, hnumber, hle⟩ : ∃ found n, number? c (rest ++ more) = some (found, n) ∧
      (c :: rest).length ≤ n + 1 := by
    rcases hkind with rfl | rfl
    · exact number?_of_isInteger h rfl
    · obtain ⟨n, hnumber, hle⟩ := number?_of_isDecimal h rfl
      exact ⟨.decimal, n, hnumber, hle⟩
  have hle : rest.length ≤ n := Nat.le_of_succ_le_succ hle
  have hfound := kind_of_number? hnumber
  have hform := form_of_number? hnumber
  have htake : (rest ++ more).take n = rest ++ more.take (n - rest.length) := by
    rw [List.take_append, List.take_of_length_le hle]
  -- If more were taken, the next character would belong to the number.
  have hnone : more.take (n - rest.length) = [] := by
    rw [htake] at hform
    cases htaken : more.take (n - rest.length) with
    | nil => rfl
    | cons x after =>
      have hnext : more.head? = some x := by
        have hhead : (more.take (n - rest.length)).head? = some x := by
          rw [htaken]
          rfl
        rw [List.head?_take] at hhead
        split_ifs at hhead
        exact hhead
      have hchar : IsNumberChar x := isNumberChar_of_mem hfound hform x (by simp [htaken])
      exact absurd hchar (hmore x hnext)
  rw [hnone, List.append_nil] at htake
  rw [htake] at hform
  have hsame : found = kind := by
    have hpoint := (eq_decimal_iff hfound hform).trans (eq_decimal_iff hkind h).symm
    rcases hfound with rfl | rfl
    · exact (hkind.resolve_right fun hdecimal => nomatch hpoint.mpr hdecimal).symm
    · exact (hpoint.mp rfl).symm
  exact ⟨n, hsame ▸ hnumber, hle, htake⟩

theorem ne_nil_of_number (hkind : kind = .integer ∨ kind = .decimal) (h : kind.Form text) : text ≠ [] := by
  rintro rfl
  rcases hkind with rfl | rfl
  · rcases h with hwhole | ⟨whole, heq, -⟩
    · exact hwhole.digits.1 rfl
    · cases heq
  · obtain ⟨sign, whole, fraction, heq, -⟩ := h
    simp at heq

theorem blank_cases {c : Char} (h : isBlank c = true) : c = ' ' ∨ c = '\t' ∨ c = '\r' ∨ c = '\n' ∨ c = '\x08' := by
  simpa [isBlank, or_assoc] using h

theorem not_isBlank {c : Char} (h : IsNumberChar c) : isBlank c = false := by
  rw [Bool.eq_false_iff]
  intro hblank
  -- No blank is a digit, a sign or a point.
  unfold IsNumberChar at h
  rcases blank_cases hblank with rfl | rfl | rfl | rfl | rfl <;> exact absurd h (by decide)

theorem tokens_length_append (offset : Nat) (cs : List Char) :
    tokens cs.length offset (cs ++ more) = tokens 0 (offset + cs.length) more := by
  induction cs generalizing offset with
  | nil => rfl
  | cons c rest ih =>
    have hrest := ih (offset + 1)
    rw [Nat.add_assoc, Nat.add_comm 1] at hrest
    exact hrest

/-- Where exactly one stretch is scanned as a token, the scanner goes on behind it. -/
theorem tokens_of_token {c : Char} {rest : List Char} {n offset : Nat} (hblank : isBlank c = false)
    (h : token offset c (rest ++ more) = .ok (kind, n)) (hle : rest.length ≤ n) (htake : (rest ++ more).take n = rest) :
    tokens 0 offset (c :: rest ++ more) =
      (tokens 0 (offset + (c :: rest).length) more).map (⟨kind, String.ofList (c :: rest), offset⟩ :: ·) := by
  have hbehind : tokens n (offset + 1) (rest ++ more) = tokens 0 (offset + (c :: rest).length) more := by
    cases more with
    | nil =>
      rw [tokens_of_length_le (by simpa using hle)]
      rfl
    | cons x after =>
      -- As no more than the stretch is taken, it is taken exactly.
      have hn : n = rest.length := by
        have hlength := congrArg List.length htake
        rw [List.length_take, List.length_append, List.length_cons] at hlength
        omega
      rw [hn, tokens_length_append, List.length_cons, Nat.add_assoc, Nat.add_comm 1]
  rw [List.cons_append, tokens, if_neg (by simp [hblank]), h]
  simp only [hbehind, htake]

/-- A number and what stands behind it are scanned one after the other. -/
theorem tokens_of_number (hkind : kind = .integer ∨ kind = .decimal) (h : kind.Form text)
    (hmore : ∀ x ∈ more.head?, ¬ IsNumberChar x) (offset : Nat) : tokens 0 offset (text ++ more) =
      (tokens 0 (offset + text.length) more).map (⟨kind, String.ofList text, offset⟩ :: ·) := by
  obtain ⟨c, rest, rfl⟩ := List.exists_cons_of_ne_nil (ne_nil_of_number hkind h)
  obtain ⟨n, hnumber, hle, htake⟩ := number?_of_form hkind h hmore
  have hblank : isBlank c = false := not_isBlank (isNumberChar_of_mem hkind h c List.mem_cons_self)
  exact tokens_of_token hblank (token_of_number? hnumber) hle htake

/-- A number alone is one token. -/
theorem tokenize_of_number {text : String} (hkind : kind = .integer ∨ kind = .decimal) (h : kind.Form text.toList) :
    tokenize text = .ok [⟨kind, text, 0⟩] := by
  have hend : ∀ x ∈ ([] : List Char).head?, ¬ IsNumberChar x := nofun
  have htokens := tokens_of_number hkind h hend 0
  rw [List.append_nil, String.ofList_toList] at htokens
  exact htokens

end Scan

end BlockLang
