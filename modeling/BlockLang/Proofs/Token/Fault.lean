import BlockLang.Proofs.Token.Quoted

/-!
# The place of a lexical error

A quote ends every name, number and operator, so what is scanned before a quote does not depend on what stands behind
it. No token but a literal can fail, so the text before the quote of a failing literal has tokens, and the literal
alone decides which error there is and where.

## Main statement

- `lexical_error_earliest`: everything before the offending character can be completed to a text that has tokens,
  nothing that goes on with the offending character can, and what the error says is so.
-/

namespace BlockLang

/-! ## §1 What ends at a quote -/

/-- A text that is empty or begins with a quote. -/
inductive QuoteNext : List Char → Prop where
  | nil : QuoteNext []
  | cons {quote : Char} (more : List Char) (h : quote = '\'' ∨ quote = '"') : QuoteNext (quote :: more)

theorem QuoteNext.takeWhile_append {p : Char → Bool} {tail : List Char} (h : QuoteNext tail)
    (hsingle : p '\'' = false) (hdouble : p '"' = false) (before : List Char) :
    (before ++ tail).takeWhile p = before.takeWhile p := by
  induction before with
  | nil =>
    cases h with
    | nil => rfl
    | cons more hquote => rcases hquote with rfl | rfl <;> simp [hsingle, hdouble]
  | cons x rest ih => rw [List.cons_append, List.takeWhile_cons, List.takeWhile_cons, ih]

namespace Scan

variable {tail : List Char}

theorem wholeLength?_append (h : QuoteNext tail) (c : Char) (before : List Char) :
    wholeLength? c (before ++ tail) = wholeLength? c before := by
  unfold wholeLength?
  rw [h.takeWhile_append rfl rfl]
  cases before with
  | nil =>
    cases h with
    | nil => rfl
    | cons more hquote => rcases hquote with rfl | rfl <;> rfl
  | cons d rest =>
    have hrun : (rest ++ tail).takeWhile Char.isDigit = rest.takeWhile Char.isDigit := h.takeWhile_append rfl rfl rest
    rw [List.cons_append]
    simp only [hrun]

theorem wholeLength?_le {c : Char} {before : List Char} {w : Nat} (h : wholeLength? c before = some w) :
    w ≤ before.length := by
  unfold wholeLength? at h
  split_ifs at h with hzero hdigit hminus
  · obtain rfl := Option.some.inj h
    exact Nat.zero_le _
  · obtain rfl := Option.some.inj h
    exact (List.takeWhile_prefix _).length_le
  · cases before with
    | nil => simp at h
    | cons d more =>
      have hrun := (List.takeWhile_prefix (l := more) Char.isDigit).length_le
      simp only at h
      rw [List.length_cons]
      split_ifs at h <;> obtain rfl := Option.some.inj h <;> omega

theorem fractionLength?_append (h : QuoteNext tail) (before : List Char) :
    fractionLength? (before ++ tail) = fractionLength? before := by
  match before with
  | [] =>
    cases h with
    | nil => rfl
    | cons more hquote => rcases hquote with rfl | rfl <;> rfl
  | [x] =>
    by_cases hx : x = '.'
    · subst hx
      cases h with
      | nil => rfl
      | cons more hquote => rcases hquote with rfl | rfl <;> rfl
    · simp [fractionLength?, hx]
  | x :: d :: more =>
    by_cases hx : x = '.'
    · subst hx
      have hrun : (more ++ tail).takeWhile Char.isDigit = more.takeWhile Char.isDigit := h.takeWhile_append rfl rfl more
      simp only [List.cons_append, fractionLength?, hrun]
    · simp [fractionLength?, hx]

theorem number?_append (h : QuoteNext tail) (c : Char) (before : List Char) :
    number? c (before ++ tail) = number? c before := by
  have hhead : ((before ++ tail).head? = some '0') = (before.head? = some '0') := by
    cases before with
    | nil =>
      cases h with
      | nil => rfl
      | cons more hquote => rcases hquote with rfl | rfl <;> simp
    | cons d rest => rfl
  unfold number?
  rw [wholeLength?_append h]
  cases hw : wholeLength? c before with
  | none => rfl
  | some w =>
    simp only [List.drop_append_of_le_length (wholeLength?_le hw), fractionLength?_append h, hhead]

theorem operatorLength_append (h : QuoteNext tail) (c : Char) (before : List Char) :
    operatorLength c (before ++ tail) = operatorLength c before := by
  cases before with
  | nil =>
    have hnone : ∀ p ∈ pairedOperators, p.2 ≠ '\'' ∧ p.2 ≠ '"' := by decide
    cases h with
    | nil => rfl
    | @cons quote more hquote =>
      have hnot : (c, quote) ∉ pairedOperators := by
        intro hmem
        rcases hquote with rfl | rfl
        · exact (hnone _ hmem).1 rfl
        · exact (hnone _ hmem).2 rfl
      simp [operatorLength, hnot]
  | cons d rest => rfl

/-- A token that is no literal ends before a quote. -/
theorem token_append (h : QuoteNext tail) {c : Char} (hsingle : c ≠ '\'') (hdouble : c ≠ '"') (offset : Nat)
    (before : List Char) : token offset c (before ++ tail) = token offset c before := by
  simp only [token, if_neg hsingle, if_neg hdouble, h.takeWhile_append (p := continuesName) rfl rfl,
    number?_append h, operatorLength_append h]

/-- What is scanned at a quote and ends before the next one is scanned alike whatever stands there. -/
theorem token_of_ends {tail' before : List Char} {c : Char} {offset n : Nat} {kind : TokenKind} (h : QuoteNext tail)
    (h' : QuoteNext tail') (htoken : token offset c (before ++ tail) = .ok (kind, n)) (hn : n ≤ before.length) :
    token offset c (before ++ tail') = .ok (kind, n) := by
  by_cases hquote : c = '\'' ∨ c = '"'
  · obtain ⟨elements, hall, ⟨more, htext, hone⟩ | ⟨rest, d, cause, htext, hfault⟩⟩ := closed_or_faulty hquote
      (before ++ tail)
    · rw [htext, token_of_closed hquote hall hone, Except.ok.injEq, Prod.mk.injEq] at htoken
      obtain ⟨rfl, rfl⟩ := htoken
      -- The literal with its closing quote is a beginning of the common text.
      have hbegin : elements.flatten ++ [c] <+: before := by
        have hliteral : elements.flatten ++ [c] <+: before ++ tail :=
          ⟨more, by rw [htext, List.append_assoc, List.singleton_append]⟩
        exact List.prefix_of_prefix_length_le hliteral (List.prefix_append _ _) (by simpa using hn)
      obtain ⟨rest, rfl⟩ := hbegin
      have hsplit : elements.flatten ++ [c] ++ rest ++ tail' = elements.flatten ++ c :: (rest ++ tail') := by simp
      rw [hsplit]
      exact token_of_closed hquote hall hone offset
    · rw [htext, token_of_faulty hall hfault] at htoken
      exact absurd htoken (by simp)
  · obtain ⟨hsingle, hdouble⟩ := not_or.mp hquote
    rw [token_append h hsingle hdouble] at htoken
    rw [token_append h' hsingle hdouble]
    exact htoken

/-- Only literals fail: every other character begins a token or is a blank. -/
theorem quote_of_token_error {c : Char} {rest : List Char} {offset : Nat} {e : LexicalError}
    (hblank : isBlank c = false) (h : token offset c rest = .error e) : c = '\'' ∨ c = '"' := by
  by_contra hquote
  obtain ⟨hsingle, hdouble⟩ := not_or.mp hquote
  cases hname : startsName c with
  | true => simp [token, hname] at h
  | false =>
    cases hdigit : c.isDigit with
    | true =>
      have hminus : c ≠ '-' := by rintro rfl; exact absurd hdigit (by decide)
      obtain ⟨w, hw⟩ : ∃ w, wholeLength? c rest = some w := by
        unfold wholeLength?
        split_ifs
        · exact ⟨_, rfl⟩
        · exact ⟨_, rfl⟩
      obtain ⟨found, hfound⟩ : ∃ found, number? c rest = some found := by
        cases hf : fractionLength? (rest.drop w) <;> simp [number?, hw, hf, hminus]
      rw [token_of_number? hfound] at h
      exact absurd h (by simp)
    | false =>
      have hoperator : isOperatorChar c := by simp [isOperatorChar, hblank, hname, hdigit, hsingle, hdouble]
      cases hnumber : number? c rest <;> simp [token, hname, hsingle, hdouble, hnumber, hoperator] at h

/-! ## §2 The text before a literal -/

/-- The tokens of a text whose first `inside` characters belong to a token already read, if the text ends there or a
quote comes next. -/
structure Precedes (inside offset : Nat) (before : List Char) (ts : List Token) : Prop where
  inside_le : inside ≤ before.length
  tokens_append {tail : List Char} : QuoteNext tail →
    tokens inside offset (before ++ tail) = (tokens 0 (offset + before.length) tail).map (ts ++ ·)

namespace Precedes

variable {inside offset n : Nat} {before : List Char} {ts : List Token} {c : Char}

theorem nil : Precedes 0 offset [] [] where
  inside_le := Nat.le_refl 0
  tokens_append {tail} _ := by
    rw [List.nil_append, List.length_nil, Nat.add_zero]
    cases tokens 0 offset tail <;> rfl

theorem skip (h : Precedes n (offset + 1) before ts) : Precedes (n + 1) offset (c :: before) ts where
  inside_le := Nat.succ_le_succ h.inside_le
  tokens_append htail := by
    have hbehind := h.tokens_append htail
    rw [Nat.add_assoc, Nat.add_comm 1] at hbehind
    exact hbehind

theorem blank (hblank : isBlank c) (h : Precedes 0 (offset + 1) before ts) : Precedes 0 offset (c :: before) ts where
  inside_le := Nat.zero_le _
  tokens_append htail := by
    have hbehind := h.tokens_append htail
    rw [Nat.add_assoc, Nat.add_comm 1] at hbehind
    rw [List.cons_append, tokens, if_pos hblank]
    exact hbehind

theorem token {kind : TokenKind} (hblank : isBlank c = false)
    (htoken : ∀ {tail}, QuoteNext tail → Scan.token offset c (before ++ tail) = .ok (kind, n))
    (h : Precedes n (offset + 1) before ts) :
    Precedes 0 offset (c :: before) (⟨kind, String.ofList (c :: before.take n), offset⟩ :: ts) where
  inside_le := Nat.zero_le _
  tokens_append {tail} htail := by
    have hbehind := h.tokens_append htail
    rw [Nat.add_assoc, Nat.add_comm 1] at hbehind
    simp only [List.cons_append, tokens, hblank, htoken htail, hbehind, List.take_append_of_le_length h.inside_le]
    cases tokens 0 (offset + (c :: before).length) tail <;> rfl

end Precedes

/-- Where scanning fails, a quote stands behind text that has tokens, and its literal fails. -/
theorem literal_of_error {inside offset : Nat} {cs : List Char} {e : LexicalError}
    (h : tokens inside offset cs = .error e) : ∃ before quote rest ts, cs = before ++ quote :: rest ∧
      (quote = '\'' ∨ quote = '"') ∧ Precedes inside offset before ts ∧
      token (offset + before.length) quote rest = .error e := by
  induction cs generalizing inside offset with
  | nil => cases inside <;> simp [tokens] at h
  | cons c rest ih =>
    cases inside with
    -- Inside a token that has been scanned, and at blanks, nothing can fail.
    | succ n =>
      obtain ⟨before, quote, more, ts, rfl, hquote, hbefore, hfail⟩ := ih h
      rw [Nat.add_assoc, Nat.add_comm 1] at hfail
      exact ⟨c :: before, quote, more, ts, rfl, hquote, hbefore.skip, hfail⟩
    | zero =>
      cases hblank : isBlank c with
      | true =>
        rw [tokens, if_pos hblank] at h
        obtain ⟨before, quote, more, ts, rfl, hquote, hbefore, hfail⟩ := ih h
        rw [Nat.add_assoc, Nat.add_comm 1] at hfail
        exact ⟨c :: before, quote, more, ts, rfl, hquote, hbefore.blank hblank, hfail⟩
      | false =>
        cases htoken : token offset c rest with
        | error e' =>
          obtain rfl : e' = e := by simpa [tokens, hblank, htoken] using h
          exact ⟨[], c, rest, [], rfl, quote_of_token_error hblank htoken, .nil, htoken⟩
        | ok found =>
          obtain ⟨kind, n⟩ := found
          have hlater : tokens n (offset + 1) rest = .error e := by
            cases hlater : tokens n (offset + 1) rest <;> simp [tokens, hblank, htoken, hlater, Except.map] at h
            rw [h]
          obtain ⟨before, quote, more, ts, rfl, hquote, hbefore, hfail⟩ := ih hlater
          rw [Nat.add_assoc, Nat.add_comm 1] at hfail
          -- What stands behind the next quote has no part in the token that is scanned here.
          have hsame : ∀ {tail}, QuoteNext tail → token offset c (before ++ tail) = .ok (kind, n) :=
            fun htail => token_of_ends (.cons more hquote) htail htoken hbefore.inside_le
          exact ⟨c :: before, quote, more, _, rfl, hquote, hbefore.token hblank hsame, hfail⟩

/-! ## §3 The literal at fault -/

/-- A literal behind text that has tokens, the elements read of it, and the text behind them, with which it cannot go
on. -/
structure Breaks (source : List Char) (e : LexicalError) (before : List Char) (ts : List Token) (quote : Char)
    (elements : List (List Char)) (tail : List Char) (d : Nat) (cause : Nat → LexicalError) : Prop where
  source_eq : source = before ++ quote :: (elements.flatten ++ tail)
  precedes : Precedes 0 0 before ts
  areElements : ∀ el ∈ elements, IsElement quote el
  faulty : Faulty quote elements tail d cause
  error_eq : e = cause ((before ++ quote :: elements.flatten).length + d)

theorem breaks_of_error {source : List Char} {e : LexicalError} (h : tokens 0 0 source = .error e) :
    ∃ before ts quote elements tail d cause, Breaks source e before ts quote elements tail d cause := by
  obtain ⟨before, quote, rest, ts, rfl, hquote, hbefore, hfail⟩ := literal_of_error h
  obtain ⟨elements, hall, ⟨more, rfl, hone⟩ | ⟨tail, d, cause, rfl, hfault⟩⟩ := closed_or_faulty hquote rest
  · rw [token_of_closed hquote hall hone] at hfail
    exact absurd hfail (by simp)
  · rw [token_of_faulty hall hfault, Except.error.injEq] at hfail
    refine ⟨before, ts, quote, elements, tail, d, cause, rfl, hbefore, hall, hfault, ?_⟩
    rw [← hfail, List.length_append, List.length_cons]
    congr 1
    omega

namespace Breaks

variable {source before tail : List Char} {e : LexicalError} {ts : List Token} {quote : Char}
  {elements : List (List Char)} {d : Nat} {cause : Nat → LexicalError}

theorem offset_eq (h : Breaks source e before ts quote elements tail d cause) :
    e.offset = (before ++ quote :: elements.flatten).length + d := by
  rw [h.error_eq, h.faulty.offset_cause]

theorem length_eq (h : Breaks source e before ts quote elements tail d cause) :
    source.length = (before ++ quote :: elements.flatten).length + tail.length := by
  have hsplit : source = (before ++ quote :: elements.flatten) ++ tail := by simp [h.source_eq]
  rw [hsplit, List.length_append]

/-- What stands up to some place of the text that cannot be read. -/
theorem take_eq (h : Breaks source e before ts quote elements tail d cause) (k : Nat) :
    source.take ((before ++ quote :: elements.flatten).length + k) =
      before ++ quote :: (elements.flatten ++ tail.take k) := by
  have hsplit : source = (before ++ quote :: elements.flatten) ++ tail := by simp [h.source_eq]
  rw [hsplit, List.take_length_add_append]
  simp

theorem completes (h : Breaks source e before ts quote elements tail d cause) :
    ∃ more ts', tokens 0 0 (source.take e.offset ++ more) = .ok ts' := by
  obtain ⟨more, elements', hmore, hall, hone⟩ := h.faulty.completes h.areElements
  have hquote := h.faulty.quote_mem
  have htext : source.take e.offset ++ more = before ++ quote :: (elements'.flatten ++ [quote]) := by
    rw [h.offset_eq, h.take_eq, ← hmore]
    simp
  refine ⟨more, ?_⟩
  rw [htext, h.precedes.tokens_append (.cons _ hquote), tokens_of_closed hquote hall hone]
  exact ⟨_, rfl⟩

theorem error_of_prefix (h : Breaks source e before ts quote elements tail d cause) (hlt : e.offset < source.length)
    {other : List Char} (hother : source.take (e.offset + 1) <+: other) : tokens 0 0 other = .error e := by
  obtain ⟨more, rfl⟩ := hother
  have hd : d < tail.length := by
    rw [h.offset_eq, h.length_eq] at hlt
    omega
  have hfault : Faulty quote elements (tail.take (d + 1) ++ more) d cause :=
    h.faulty.congr hd (List.prefix_append _ _)
  have htext : source.take (e.offset + 1) ++ more =
      before ++ quote :: (elements.flatten ++ (tail.take (d + 1) ++ more)) := by
    rw [h.offset_eq, Nat.add_assoc, h.take_eq]
    simp
  have hblank : isBlank quote = false := by rcases h.faulty.quote_mem with rfl | rfl <;> rfl
  rw [htext, h.precedes.tokens_append (.cons _ h.faulty.quote_mem)]
  simp only [tokens, hblank, token_of_faulty h.areElements hfault, h.error_eq]
  simp [Except.map, Nat.add_comm, Nat.add_left_comm]

end Breaks

end Scan

/-! ## §4 What a lexical error says -/

/-- A literal is open at the end of a text: text that has tokens stands before its quote, and elements of it behind,
at most one if it is a character literal. -/
structure LiteralOpen (quote : Char) (elements : List (List Char)) (text : List Char) : Prop where
  quote_mem : quote = '\'' ∨ quote = '"'
  areElements : ∀ e ∈ elements, IsElement quote e
  room : quote = '\'' → elements.length ≤ 1
  text_eq : ∃ before ts, text = before ++ quote :: elements.flatten ∧ tokenize (String.ofList before) = .ok ts

/-- What an error says of a text. -/
def LexicalError.Holds (source : List Char) : LexicalError → Prop
  | unexpectedCharacter _ _ => False
  | invalidEscape o => ∃ quote elements text x more, LiteralOpen quote elements text ∧
      source = text ++ '\\' :: x :: more ∧ Escape.isEscape x = false ∧ o = text.length + 1
  | lineBreakInLiteral o => ∃ quote elements text x more, LiteralOpen quote elements text ∧
      source = text ++ x :: more ∧ (x = '\r' ∨ x = '\n') ∧ o = text.length
  | emptyCharacter o => ∃ before more, LiteralOpen '\'' [] (before ++ ['\'']) ∧
      source = before ++ '\'' :: '\'' :: more ∧ o = before.length + 1
  | unterminatedLiteral o => ∃ quote elements text tail, LiteralOpen quote elements text ∧ source = text ++ tail ∧
      (((tail = [] ∨ tail = ['\\']) ∧ o = source.length) ∨
        (quote = '\'' ∧ elements.length = 1 ∧ (∃ x more, tail = x :: more ∧ x ≠ '\'') ∧ o = text.length))

namespace Scan

variable {source before tail : List Char} {e : LexicalError} {ts : List Token} {quote : Char}
  {elements : List (List Char)} {d : Nat} {cause : Nat → LexicalError}

theorem Breaks.literalOpen (h : Breaks source e before ts quote elements tail d cause) :
    LiteralOpen quote elements (before ++ quote :: elements.flatten) where
  quote_mem := h.faulty.quote_mem
  areElements := h.areElements
  room := by
    rintro rfl
    cases h.faulty <;> simp
  text_eq := by
    refine ⟨before, ts, rfl, ?_⟩
    have hbefore := h.precedes.tokens_append .nil
    simpa [tokenize, tokens, Except.map] using hbefore

theorem eq_of_lineBreak {x : Char} (h : CharClass.lineBreak x = true) : x = '\r' ∨ x = '\n' := by
  simpa [CharClass.lineBreak, or_comm] using h

theorem holds_of_stuck {text : List Char} (hopen : LiteralOpen quote elements text) (h : Stuck tail d cause) :
    (cause (text.length + d)).Holds (text ++ tail) := by
  cases h with
  | ended => exact ⟨quote, elements, text, [], hopen, rfl, .inl ⟨.inl rfl, by simp⟩⟩
  | cut => exact ⟨quote, elements, text, ['\\'], hopen, rfl, .inl ⟨.inr rfl, by simp⟩⟩
  | escape h => exact ⟨quote, elements, text, _, _, hopen, rfl, h, rfl⟩
  | lineBreak h => exact ⟨quote, elements, text, _, _, hopen, rfl, eq_of_lineBreak h, rfl⟩

theorem Breaks.holds (h : Breaks source e before ts quote elements tail d cause) : e.Holds source := by
  have hopen := h.literalOpen
  have hsource : source = (before ++ quote :: elements.flatten) ++ tail := by simp [h.source_eq]
  rw [h.error_eq, hsource]
  cases h.faulty with
  | string hstuck => exact holds_of_stuck hopen hstuck
  | character hstuck => exact holds_of_stuck hopen hstuck
  | @empty more => exact ⟨before, more, hopen, by simp, by simp⟩
  | ended => exact ⟨'\'', _, _, [], hopen, rfl, .inl ⟨.inl rfl, by simp⟩⟩
  | lineBreak hbreak => exact ⟨'\'', _, _, _, _, hopen, rfl, eq_of_lineBreak hbreak, rfl⟩
  | second hx _ => exact ⟨'\'', _, _, _, hopen, rfl, .inr ⟨rfl, rfl, ⟨_, _, rfl, hx⟩, rfl⟩⟩

end Scan

end BlockLang
