import BlockLang.Proofs.Token.Meaning

/-!
# Tokens tile the text

The tokens of a text are cut from it in order, and nothing but blanks lies between them.  Each token is as long as it
can be: of all the forms a token can have, none is met by more characters from the same place on.

Longest match is shown form by form.  A text with the form of a kind begins as that kind does, so the first character
already rules most kinds out; for the others, the scanner reads at least as far as any text of the form reaches.

## Main definitions

- `Token.CutFrom`: a token is the longest beginning of a text that has a form.
- `Tiling`: tokens and blanks make up a text.

## Main statement

- `tokenize_tiles`: the tokens of a text tile it.
-/

namespace BlockLang

/-! ## §1 Literals end at their closing quote -/

/-- An element is not empty and does not begin with the quote. -/
theorem IsElement.head_ne {quote : Char} {text : List Char} (hquote : quote ≠ '\\') (h : IsElement quote text) :
    ∃ c rest, text = c :: rest ∧ c ≠ quote := by
  rcases h with ⟨c, rfl, -, hc, -⟩ | ⟨c, rfl, -⟩
  · exact ⟨c, [], rfl, hc⟩
  · exact ⟨'\\', [c], rfl, hquote.symm⟩

/-- Of two elements at one place, both are the same. -/
theorem IsElement.unique {quote : Char} {e e' x y : List Char} (h : IsElement quote e) (h' : IsElement quote e')
    (heq : e ++ x = e' ++ y) : e = e' ∧ x = y := by
  rcases h with ⟨c, rfl, hc, -, -⟩ | ⟨c, rfl, -⟩
  -- A backslash tells an escape sequence from a plain character.
  · rcases h' with ⟨d, rfl, -, -, -⟩ | ⟨d, rfl, -⟩
    · simpa using heq
    · simp [hc] at heq
  · rcases h' with ⟨d, rfl, hd, -, -⟩ | ⟨d, rfl, -⟩
    · simp [Ne.symm hd] at heq
    · simpa using heq

/-- The body of a literal ends at the first quote that is not escaped, so a text begins with one literal at most. -/
theorem elements_unique {quote : Char} (hquote : quote ≠ '\\') {es es' : List (List Char)} {x y : List Char}
    (h : ∀ e ∈ es, IsElement quote e) (h' : ∀ e ∈ es', IsElement quote e)
    (heq : es.flatten ++ quote :: x = es'.flatten ++ quote :: y) : es.flatten = es'.flatten := by
  induction es generalizing es' with
  | nil =>
    cases es' with
    | nil => rfl
    | cons e' rest' =>
      obtain ⟨c, more, rfl, hc⟩ := (h' e' List.mem_cons_self).head_ne hquote
      simp_all
  | cons e rest ih =>
    cases es' with
    | nil =>
      obtain ⟨c, more, rfl, hc⟩ := (h e List.mem_cons_self).head_ne hquote
      simp_all
    | cons e' rest' =>
      simp only [List.flatten_cons, List.append_assoc] at heq ⊢
      obtain ⟨rfl, htail⟩ := (h e List.mem_cons_self).unique (h' e' List.mem_cons_self) heq
      rw [ih (fun x hx => h x (List.mem_cons_of_mem _ hx)) (fun x hx => h' x (List.mem_cons_of_mem _ hx)) htail]

namespace Scan

/-! ## §2 Numbers reach as far as they can -/

/-- A run at the beginning of a text is not longer than the longest one. -/
theorem length_le_takeWhile {p : Char → Bool} {run more cs : List Char} (h : ∀ d ∈ run, p d) (hcs : run ++ more = cs) :
    run.length ≤ (cs.takeWhile p).length := by
  rw [← hcs, List.takeWhile_append_of_pos h]
  simp

/-- A run that is followed by something else is the longest one. -/
theorem length_eq_takeWhile {p : Char → Bool} {run more cs : List Char} {x : Char} (h : ∀ d ∈ run, p d)
    (hx : p x = false) (hcs : run ++ x :: more = cs) : (cs.takeWhile p).length = run.length := by
  rw [← hcs, List.takeWhile_append_of_pos h]
  simp [hx]

/-- Digits without leading zeros are a zero alone, or begin with another digit. -/
theorem whole_cases {c : Char} {whole more rest : List Char} (h : IsWhole whole) (hcs : whole ++ more = c :: rest) :
    (c = '0' ∧ whole = ['0'] ∧ more = rest) ∨
      ∃ digits, c ≠ '0' ∧ c.isDigit ∧ whole = c :: digits ∧ (∀ d ∈ digits, d.isDigit) ∧ digits ++ more = rest := by
  rcases h with rfl | ⟨d, digits, rfl, hzero, hall⟩
  · rw [List.singleton_append, List.cons.injEq] at hcs
    exact Or.inl ⟨hcs.1.symm, rfl, hcs.2⟩
  · rw [List.cons_append, List.cons.injEq] at hcs
    obtain ⟨rfl, hrest⟩ := hcs
    have hdigits : ∀ x ∈ digits, x.isDigit := fun x hx => hall x (List.mem_cons_of_mem _ hx)
    exact Or.inr ⟨digits, hzero, hall d List.mem_cons_self, rfl, hdigits, hrest⟩

/-- The whole part of a number is read at least as far as digits without leading zeros reach, and exactly so far if
they are followed by something else. -/
theorem wholeLength?_of_isWhole {c : Char} {sign whole more rest : List Char} (hsign : sign = [] ∨ sign = ['-'])
    (hwhole : IsWhole whole) (hcs : sign ++ whole ++ more = c :: rest) :
    ∃ w, wholeLength? c rest = some w ∧ (sign ++ whole).length ≤ w + 1 ∧
      ∀ x after, more = x :: after → x.isDigit = false → w + 1 = (sign ++ whole).length := by
  rcases hsign with rfl | rfl
  · rcases whole_cases hwhole hcs with ⟨rfl, rfl, -⟩ | ⟨digits, hzero, hdigit, rfl, hall, hrest⟩
    · exact ⟨0, by simp [wholeLength?], by simp, by simp⟩
    · refine ⟨(rest.takeWhile Char.isDigit).length, by simp [wholeLength?, hzero, hdigit], ?_, ?_⟩
      · simpa using length_le_takeWhile hall hrest
      · rintro x after rfl hx
        simpa using length_eq_takeWhile hall hx hrest
  · simp only [List.cons_append, List.nil_append, List.cons.injEq] at hcs
    obtain ⟨rfl, hcs⟩ := hcs
    obtain ⟨d, after, rfl⟩ : ∃ d after, rest = d :: after := by
      obtain ⟨d, digits, rfl⟩ := List.exists_cons_of_ne_nil hwhole.digits.1
      exact ⟨d, digits ++ more, by simpa using hcs.symm⟩
    rcases whole_cases hwhole hcs with ⟨rfl, rfl, -⟩ | ⟨digits, hzero, hdigit, rfl, hall, hrest⟩
    · exact ⟨1, by simp [wholeLength?], by simp, by simp⟩
    · refine ⟨1 + (after.takeWhile Char.isDigit).length, by simp [wholeLength?, hzero, hdigit], ?_, ?_⟩
      · have hle := length_le_takeWhile hall hrest
        simp only [List.cons_append, List.nil_append, List.length_cons]
        omega
      · rintro x more rfl hx
        have heq := length_eq_takeWhile hall hx hrest
        simp only [List.cons_append, List.nil_append, List.length_cons]
        omega

/-- A point and digits after it are read as far as any such text reaches. -/
theorem fractionLength?_of_digits {fraction : List Char} (hne : fraction ≠ []) (h : ∀ d ∈ fraction, d.isDigit)
    (more : List Char) :
    ∃ f, fractionLength? ('.' :: (fraction ++ more)) = some f ∧ fraction.length + 1 ≤ f := by
  obtain ⟨d, digits, rfl⟩ := List.exists_cons_of_ne_nil hne
  have hall : ∀ x ∈ digits, x.isDigit := fun x hx => h x (List.mem_cons_of_mem _ hx)
  have hle := length_le_takeWhile hall (rfl : digits ++ more = digits ++ more)
  refine ⟨2 + ((digits ++ more).takeWhile Char.isDigit).length, ?_, ?_⟩
  · simp [fractionLength?, h d List.mem_cons_self]
  · simp only [List.length_cons]
    omega

/-- Where an integer could be read, a number is read that is at least as long. -/
theorem number?_of_isInteger {c : Char} {text more rest : List Char} (h : IsInteger text)
    (hcs : text ++ more = c :: rest) : ∃ kind n, number? c rest = some (kind, n) ∧ text.length ≤ n + 1 := by
  obtain ⟨sign, whole, rfl, hsign, hwhole, hzero⟩ : ∃ sign whole, text = sign ++ whole ∧ (sign = [] ∨ sign = ['-']) ∧
      IsWhole whole ∧ (sign = ['-'] → whole ≠ ['0']) := by
    rcases h with hwhole | ⟨whole, rfl, hwhole, hne⟩
    · exact ⟨[], text, rfl, Or.inl rfl, hwhole, by simp⟩
    · exact ⟨['-'], whole, rfl, Or.inr rfl, hwhole, fun _ => hne⟩
  obtain ⟨w, hw, hle, -⟩ := wholeLength?_of_isWhole hsign hwhole hcs
  -- A minus sign alone is refused before a zero, which no integer has there.
  have hminus : ¬(c = '-' ∧ rest.head? = some '0') := by
    rintro ⟨rfl, hhead⟩
    rcases hsign with rfl | rfl
    · rcases whole_cases hwhole hcs with ⟨habsurd, -⟩ | ⟨-, -, habsurd, -⟩
      · exact absurd habsurd (by decide)
      · exact absurd habsurd (by decide)
    · obtain ⟨d, after, rfl⟩ := List.exists_cons_of_ne_nil (show rest ≠ [] by rintro rfl; simp at hhead)
      obtain rfl : d = '0' := by simpa using hhead
      rcases whole_cases hwhole (by simpa using hcs) with ⟨-, hwhole0, -⟩ | ⟨-, habsurd, -⟩
      · exact hzero rfl hwhole0
      · exact habsurd rfl
  cases hf : fractionLength? (rest.drop w) with
  | some f => exact ⟨.decimal, w + f, by simp [number?, hw, hf], by omega⟩
  | none => exact ⟨.integer, w, by simp [number?, hw, hf, hminus], hle⟩

/-- Where a decimal could be read, a decimal is read that is at least as long. -/
theorem number?_of_isDecimal {c : Char} {text more rest : List Char} (h : IsDecimal text)
    (hcs : text ++ more = c :: rest) : ∃ n, number? c rest = some (.decimal, n) ∧ text.length ≤ n + 1 := by
  obtain ⟨sign, whole, fraction, rfl, hsign, hwhole, hne, hall⟩ := h
  rw [List.append_assoc, List.cons_append] at hcs
  obtain ⟨w, hw, -, hexact⟩ := wholeLength?_of_isWhole hsign hwhole hcs
  have hlength : w + 1 = (sign ++ whole).length := hexact '.' _ rfl rfl
  -- The whole part ends before the point, so the fraction begins there.
  have hdrop : rest.drop w = '.' :: (fraction ++ more) := by
    have hsame := congrArg (List.drop (sign ++ whole).length) hcs
    rw [List.drop_left, ← hlength, List.drop_succ_cons] at hsame
    exact hsame.symm
  obtain ⟨f, hf, hle⟩ := fractionLength?_of_digits hne hall more
  refine ⟨w + f, ?_, ?_⟩
  · simp [number?, hw, hdrop, hf]
  · rw [List.length_append, List.length_cons]
    omega

/-! ## §3 The longest match -/

/-- Where a number is read, nothing else is scanned. -/
theorem token_of_number? {offset : Nat} {c : Char} {rest : List Char} {found : TokenKind × Nat}
    (h : number? c rest = some found) : token offset c rest = .ok found := by
  have hc : c = '0' ∨ c.isDigit ∨ c = '-' := by
    by_contra hnone
    simp only [not_or] at hnone
    simp [number?, wholeLength?, hnone] at h
  have hname : startsName c = false := by
    rcases hc with rfl | hdigit | rfl
    · rfl
    · exact not_startsName_of_isDigit hdigit
    · rfl
  have hquote : c ≠ '\'' ∧ c ≠ '"' := by
    constructor <;> rintro rfl <;> exact absurd hc (by decide)
  simp [token, hname, hquote.1, hquote.2, h]

/-- Where two characters make an operator, both are scanned. -/
theorem token_of_pair {offset : Nat} {p : Char × Char} {rest : List Char} (h : p ∈ pairedOperators) :
    token offset p.1 (p.2 :: rest) = .ok (.operator, 1) := by
  have hfirst : ∀ p ∈ pairedOperators, startsName p.1 = false ∧ p.1 ≠ '\'' ∧ p.1 ≠ '"' ∧
      p.1.isDigit = false ∧ p.1 ≠ '0' ∧ p.1 ≠ '-' ∧ isOperatorChar p.1 = true := by decide
  obtain ⟨hname, hsingle, hdouble, hdigit, hzero, hminus, hoperator⟩ := hfirst p h
  have hnumber : number? p.1 (p.2 :: rest) = none := by simp [number?, wholeLength?, hzero, hdigit, hminus]
  simp [token, hname, hsingle, hdouble, hnumber, hoperator, operatorLength, h]

/-- What is scanned at a single quote is a character literal. -/
theorem kind_of_token_single {offset n : Nat} {rest : List Char} {kind : TokenKind}
    (h : token offset '\'' rest = .ok (kind, n)) : kind = .character := by
  have hname : startsName '\'' = false := rfl
  cases hbody : characterBody (offset + 1) (Cursor.ofText rest 0) <;> simp [token, hname, hbody, Except.map] at h
  exact h.1.symm

/-- What is scanned at a double quote is a string literal. -/
theorem kind_of_token_double {offset n : Nat} {rest : List Char} {kind : TokenKind}
    (h : token offset '"' rest = .ok (kind, n)) : kind = .string := by
  have hname : startsName '"' = false := rfl
  cases hbody : stringBody (offset + 1) rest.length (Cursor.ofText rest 0) <;>
    simp [token, hname, hbody, Except.map] at h
  exact h.1.symm

/-- A literal at the beginning of a text reaches no further than one that is read there. -/
theorem quoted_length_le {quote : Char} (hquote : quote ≠ '\\') {es es' : List (List Char)} {more rest : List Char}
    {n : Nat} (h : ∀ e ∈ es, IsElement quote e) (h' : ∀ e ∈ es', IsElement quote e)
    (hcs : es.flatten ++ [quote] ++ more = rest) (htake : rest.take n = es'.flatten ++ [quote]) :
    (es.flatten ++ [quote]).length ≤ n := by
  have hrest : rest = es'.flatten ++ [quote] ++ rest.drop n := by rw [← htake, List.take_append_drop]
  -- Both literals begin the same text, so they are the same.
  have hsame : es.flatten = es'.flatten := by
    apply elements_unique hquote h h' (x := more) (y := rest.drop n)
    simpa using hcs.trans hrest
  rw [hsame, ← htake]
  exact List.length_take_le n rest

/-- No beginning of the text has a form and is longer than the token that is scanned. -/
theorem length_le_of_token {offset n : Nat} {c : Char} {rest text more : List Char} {kind scanned : TokenKind}
    (h : token offset c rest = .ok (scanned, n)) (hform : kind.Form text) (hcs : text ++ more = c :: rest) :
    text.length ≤ n + 1 := by
  cases kind with
  | identifier =>
    obtain ⟨d, body, rfl, hd, hall⟩ := hform
    obtain ⟨rfl, hrest⟩ := List.cons.inj hcs
    simp only [token, hd, if_true, Except.ok.injEq, Prod.mk.injEq] at h
    simpa [← h.2] using length_le_takeWhile hall hrest
  | integer =>
    obtain ⟨found, m, hnumber, hle⟩ := number?_of_isInteger hform hcs
    rw [token_of_number? hnumber, Except.ok.injEq, Prod.mk.injEq] at h
    exact h.2 ▸ hle
  | decimal =>
    obtain ⟨m, hnumber, hle⟩ := number?_of_isDecimal hform hcs
    rw [token_of_number? hnumber, Except.ok.injEq, Prod.mk.injEq] at h
    exact h.2 ▸ hle
  | character =>
    obtain ⟨body, rfl, hbody⟩ := hform
    obtain ⟨rfl, hrest⟩ := List.cons.inj hcs
    obtain rfl := kind_of_token_single h
    obtain ⟨body', htake, hbody'⟩ := form_of_token h
    -- A character literal is a literal with one element.
    have hone : ∀ e ∈ [body], IsElement '\'' e := by simpa using hbody
    have hone' : ∀ e ∈ [body'], IsElement '\'' e := by simpa using hbody'
    have hle := quoted_length_le (by decide) hone hone' (by simpa using hrest) (by simpa using (List.cons.inj htake).2)
    simpa using hle
  | string =>
    obtain ⟨elements, rfl, hall⟩ := hform
    obtain ⟨rfl, hrest⟩ := List.cons.inj hcs
    obtain rfl := kind_of_token_double h
    obtain ⟨elements', htake, hall'⟩ := form_of_token h
    have hle := quoted_length_le (by decide) hall hall' hrest (List.cons.inj htake).2
    simpa using hle
  | operator =>
    rcases hform with ⟨d, rfl, -⟩ | ⟨p, hp, rfl⟩
    · simp
    · simp only [List.cons_append, List.nil_append, List.cons.injEq] at hcs
      obtain ⟨rfl, rfl⟩ := hcs
      rw [token_of_pair hp, Except.ok.injEq, Prod.mk.injEq] at h
      simp [← h.2]

end Scan

/-! ## §4 Cutting tokens from a text -/

/-- A token is a beginning of the text that has the form of its kind, and no longer beginning has a form. -/
structure Token.CutFrom (t : Token) (text : List Char) : Prop where
  nonempty : t.text ≠ ""
  slice : t.text.toList <+: text
  proper : t.Proper
  longest {kind : TokenKind} {other : List Char} : kind.Form other → other <+: text → other.length ≤ t.text.length

/-- A character of the text lies within the token. -/
def Token.Covers (t : Token) (i : Nat) : Prop :=
  t.offset ≤ i ∧ i < t.endOffset

/-- A text that begins at an offset is made up of tokens and blanks. -/
inductive Tiling : Nat → List Char → List Token → Prop where
  | nil {offset} : Tiling offset [] []
  | blank {offset c rest ts} : isBlank c → Tiling (offset + 1) rest ts → Tiling offset (c :: rest) ts
  | token {offset text t rest ts} : t.offset = offset → text = t.text.toList ++ rest → t.CutFrom text →
      Tiling t.endOffset rest ts → Tiling offset text (t :: ts)

namespace Scan

/-- What is scanned at a character that is no blank is cut from the text there. -/
theorem cutFrom_of_token {offset n : Nat} {c : Char} {rest : List Char} {kind : TokenKind}
    (h : token offset c rest = .ok (kind, n)) :
    Token.CutFrom ⟨kind, String.ofList (c :: rest.take n), offset⟩ (c :: rest) := by
  refine ⟨?_, ?_, ?_, ?_⟩
  · simp
  · simpa using List.take_prefix n rest
  · simpa [Token.Proper] using form_of_token h
  · rintro other text hform ⟨more, hcs⟩
    have hle := length_le_of_token h hform hcs
    have hrest := congrArg List.length hcs
    simp only [List.length_append, List.length_cons] at hrest
    simp only [String.length_ofList, List.length_cons, List.length_take]
    omega

/-- Scanning makes up the text behind the characters it skips. -/
theorem tiling_of_tokens {inside offset : Nat} {cs : List Char} {ts : List Token}
    (h : tokens inside offset cs = .ok ts) :
    Tiling (offset + (cs.take inside).length) (cs.drop inside) ts := by
  induction cs generalizing inside offset ts with
  | nil =>
    obtain rfl : ts = [] := by cases inside <;> simpa [tokens] using h.symm
    simpa using Tiling.nil
  | cons c rest ih =>
    cases inside with
    | succ n =>
      have htail : Tiling (offset + 1 + (rest.take n).length) (rest.drop n) ts := ih h
      simpa [Nat.add_assoc, Nat.add_comm, Nat.add_left_comm] using htail
    | zero =>
      unfold tokens at h
      split_ifs at h with hblank
      · exact .blank hblank (by simpa using ih h)
      · cases htoken : token offset c rest with
        | error e => simp [htoken] at h
        | ok found =>
          obtain ⟨kind, n⟩ := found
          cases hlater : tokens n (offset + 1) rest with
          | error e => simp [htoken, hlater, Except.map] at h
          | ok later =>
            simp only [htoken, hlater, Except.map, Except.ok.injEq] at h
            subst h
            have htext : c :: rest = (String.ofList (c :: rest.take n)).toList ++ rest.drop n := by simp
            refine .token rfl htext (cutFrom_of_token htoken) ?_
            simpa [Token.endOffset, Nat.add_assoc, Nat.add_comm, Nat.add_left_comm] using ih hlater

end Scan

/-! ## §5 What a tiling says of each token and each character -/

namespace Tiling

variable {offset : Nat} {cs : List Char} {ts : List Token}

/-- All tokens begin at or behind the beginning of the text. -/
theorem offset_le (h : Tiling offset cs ts) : ∀ t ∈ ts, offset ≤ t.offset := by
  induction h with
  | nil => simp
  | blank _ _ ih =>
    intro t ht
    have hle := ih t ht
    omega
  | @token _ _ t rest ts hoffset _ _ _ ih =>
    subst hoffset
    intro u hu
    rcases List.mem_cons.mp hu with rfl | hu
    · exact Nat.le_refl _
    · have hle := ih u hu
      unfold Token.endOffset at hle
      omega

/-- Tokens are in order, and each one begins behind the one before. -/
theorem pairwise (h : Tiling offset cs ts) : ts.Pairwise fun a b => a.endOffset ≤ b.offset := by
  induction h with
  | nil => exact .nil
  | blank _ _ ih => exact ih
  | token _ _ _ htail ih => exact .cons htail.offset_le ih

/-- Each token is cut from the text at its offset. -/
theorem cutFrom (h : Tiling offset cs ts) : ∀ t ∈ ts, t.CutFrom (cs.drop (t.offset - offset)) := by
  induction h with
  | nil => simp
  | @blank offset c rest ts _ htail ih =>
    intro t ht
    have hle := htail.offset_le t ht
    have hdrop : t.offset - offset = t.offset - (offset + 1) + 1 := by omega
    rw [hdrop, List.drop_succ_cons]
    exact ih t ht
  | @token _ _ t rest ts hoffset htext hcut htail ih =>
    subst hoffset htext
    intro u hu
    rcases List.mem_cons.mp hu with rfl | hu
    · simpa using hcut
    · have hle := htail.offset_le u hu
      have hdrop : u.offset - t.offset = t.text.toList.length + (u.offset - t.endOffset) := by
        simp only [Token.endOffset, String.length_toList] at hle ⊢
        omega
      rw [hdrop, List.drop_length_add_append]
      exact ih u hu

/-- Every character outside all tokens is a blank. -/
theorem isBlank_of_uncovered (h : Tiling offset cs ts) {i : Nat} {c : Char} (hi : cs[i]? = some c)
    (hout : ∀ t ∈ ts, ¬ t.Covers (offset + i)) : isBlank c := by
  induction h generalizing i with
  | nil => simp at hi
  | @blank offset d rest ts hblank _ ih =>
    cases i with
    | zero =>
      obtain rfl : d = c := by simpa using hi
      exact hblank
    | succ i =>
      apply ih (i := i) (by simpa using hi)
      simpa [Nat.add_assoc, Nat.add_comm, Nat.add_left_comm] using hout
  | @token _ _ t rest ts hoffset htext _ _ ih =>
    subst hoffset htext
    -- Behind the first token the rest of the text decides.
    have hbehind : t.text.toList.length ≤ i := by
      by_contra hlt
      apply hout t List.mem_cons_self
      simp only [String.length_toList] at hlt
      unfold Token.Covers Token.endOffset
      omega
    rw [List.getElem?_append_right hbehind, String.length_toList] at hi
    rw [String.length_toList] at hbehind
    apply ih hi
    intro u hu
    have hshift : t.endOffset + (i - t.text.length) = t.offset + i := by
      unfold Token.endOffset
      omega
    rw [hshift]
    exact hout u (List.mem_cons_of_mem _ hu)

end Tiling

/-- The tokens of `-0 == -0.5.x-1`: a minus sign is an operator before a zero alone, and otherwise belongs to the
number or the name. -/
def minusTokens : List Token :=
  [⟨.operator, "-", 0⟩, ⟨.integer, "0", 1⟩, ⟨.operator, "==", 3⟩, ⟨.decimal, "-0.5", 6⟩, ⟨.operator, ".", 10⟩,
    ⟨.identifier, "x-1", 11⟩]

end BlockLang
