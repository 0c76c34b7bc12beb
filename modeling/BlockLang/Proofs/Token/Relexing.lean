import BlockLang.Proofs.Token.Number

/-!
# Scanning again

A text of some form is scanned as one token of its kind wherever a blank or the end of the text stands behind it: no
form goes on with a blank, except between quotes, and there the closing quote has been read.  So the tokens of a text
can be written with a space between neighbours, whatever stood between them and around them before, and are found
again with their kinds and texts.

## Main definitions

- `spaced`: a text for some tokens.
- `respaced`: the same tokens at the places that they have in that text.

## Main statement

- `tokenize_spaced`: scanning the text for the tokens of a text finds these tokens again.
-/

namespace BlockLang

namespace Scan

/-! ## §1 What stands before a blank -/

variable {kind : TokenKind} {rest more : List Char} {c : Char}

/-- A run of characters of a class without blanks ends at a blank. -/
theorem takeWhile_before_blank {p : Char → Bool} (hp : ∀ x, isBlank x = true → p x = false)
    (hrest : ∀ d ∈ rest, p d) (hmore : ∀ x ∈ more.head?, isBlank x = true) : (rest ++ more).takeWhile p = rest := by
  have hnone : more.takeWhile p = [] := by
    cases more with
    | nil => rfl
    | cons x after => rw [List.takeWhile_cons, hp x (hmore x rfl)]; rfl
  rw [List.takeWhile_append_of_pos hrest, hnone, List.append_nil]

/-- A character that is an operator on its own is one where a blank follows, a minus sign included. -/
theorem token_of_operatorChar (hc : isOperatorChar c = true) (hmore : ∀ x ∈ more.head?, isBlank x = true)
    (offset : Nat) : token offset c more = .ok (.operator, 0) := by
  obtain ⟨⟨⟨⟨-, hname⟩, hdigit⟩, hsingle⟩, hdouble⟩ :
      (((isBlank c = false ∧ startsName c = false) ∧ c.isDigit = false) ∧ c ≠ '\'') ∧ c ≠ '"' := by
    simpa [isOperatorChar] using hc
  have hzero : c ≠ '0' := by
    rintro rfl
    exact absurd hdigit (by decide)
  have hnumber : number? c more = none := by
    cases more with
    | nil => simp [number?, wholeLength?, hzero, hdigit]
    | cons x after =>
      have hx : x ≠ '0' ∧ x.isDigit = false := by
        rcases blank_cases (hmore x rfl) with rfl | rfl | rfl | rfl | rfl <;> decide
      simp [number?, wholeLength?, hzero, hdigit, hx]
  have hlength : operatorLength c more = 0 := by
    cases more with
    | nil => rfl
    | cons x after =>
      have hsecond : ∀ p ∈ pairedOperators, isBlank p.2 = false := by decide
      have hpair : (c, x) ∉ pairedOperators := by
        intro hmem
        simpa [hmore x rfl] using hsecond _ hmem
      simp [operatorLength, hpair]
  simp [token, hname, hsingle, hdouble, hnumber, hc, hlength]

/-- Before a blank, a text of some form is scanned as a token of its kind, and no more than that text is taken. -/
theorem token_of_form (h : kind.Form (c :: rest)) (hmore : ∀ x ∈ more.head?, isBlank x = true) (offset : Nat) :
    ∃ n, token offset c (rest ++ more) = .ok (kind, n) ∧ rest.length ≤ n ∧ (rest ++ more).take n = rest := by
  -- Most kinds of tokens are taken exactly.
  have exactly : token offset c (rest ++ more) = .ok (kind, rest.length) →
      ∃ n, token offset c (rest ++ more) = .ok (kind, n) ∧ rest.length ≤ n ∧ (rest ++ more).take n = rest :=
    fun htoken => ⟨rest.length, htoken, le_rfl, List.take_left⟩
  have number (hkind : kind = .integer ∨ kind = .decimal) :
      ∃ n, token offset c (rest ++ more) = .ok (kind, n) ∧ rest.length ≤ n ∧ (rest ++ more).take n = rest := by
    have hends : ∀ x ∈ more.head?, ¬ IsNumberChar x :=
      fun x hx hnumber => absurd (hmore x hx) (by simp [not_isBlank hnumber])
    obtain ⟨n, hnumber, hle, htake⟩ := number?_of_form hkind h hends
    exact ⟨n, token_of_number? hnumber, hle, htake⟩
  cases kind with
  | identifier =>
    obtain ⟨first, body, heq, hname, hbody⟩ := h
    obtain ⟨rfl, rfl⟩ := List.cons.inj heq
    have hblanks : ∀ x, isBlank x = true → continuesName x = false := by
      intro x hx
      rcases blank_cases hx with rfl | rfl | rfl | rfl | rfl <;> rfl
    have hrun : (rest ++ more).takeWhile continuesName = rest := takeWhile_before_blank hblanks hbody hmore
    exact exactly (by rw [token, if_pos hname, hrun])
  | integer => exact number (.inl rfl)
  | decimal => exact number (.inr rfl)
  | character =>
    obtain ⟨body, heq, hbody⟩ := h
    obtain ⟨rfl, rfl⟩ := List.cons.inj heq
    have htoken : token offset '\'' ([body].flatten ++ '\'' :: more) = .ok (.character, [body].flatten.length + 1) :=
      token_of_closed (.inl rfl) (List.forall_mem_singleton.mpr hbody) (fun _ => rfl) offset
    exact exactly (by simpa using htoken)
  | string =>
    obtain ⟨elements, heq, hall⟩ := h
    obtain ⟨rfl, rfl⟩ := List.cons.inj heq
    have htoken : token offset '"' (elements.flatten ++ '"' :: more) = .ok (.string, elements.flatten.length + 1) :=
      token_of_closed (.inr rfl) hall (by simp) offset
    exact exactly (by simpa using htoken)
  | operator =>
    rcases h with ⟨first, heq, hfirst⟩ | ⟨p, hp, heq⟩
    · obtain ⟨rfl, rfl⟩ := List.cons.inj heq
      exact exactly (token_of_operatorChar hfirst hmore offset)
    · obtain ⟨rfl, rfl⟩ := List.cons.inj heq
      exact exactly (token_of_pair hp)

/-- No form begins with a blank, and none is empty. -/
theorem exists_cons_of_form {text : List Char} (h : kind.Form text) :
    ∃ c rest, text = c :: rest ∧ isBlank c = false := by
  have number (hkind : kind = .integer ∨ kind = .decimal) : ∃ c rest, text = c :: rest ∧ isBlank c = false := by
    obtain ⟨c, rest, rfl⟩ := List.exists_cons_of_ne_nil (ne_nil_of_number hkind h)
    exact ⟨c, rest, rfl, not_isBlank (isNumberChar_of_mem hkind h c List.mem_cons_self)⟩
  cases kind with
  | identifier =>
    obtain ⟨c, rest, rfl, hname, -⟩ := h
    refine ⟨c, rest, rfl, Bool.eq_false_iff.mpr fun hblank => ?_⟩
    rcases blank_cases hblank with rfl | rfl | rfl | rfl | rfl <;> exact absurd hname (by decide)
  | integer => exact number (.inl rfl)
  | decimal => exact number (.inr rfl)
  | character =>
    obtain ⟨body, rfl, -⟩ := h
    exact ⟨_, _, rfl, rfl⟩
  | string =>
    obtain ⟨elements, rfl, -⟩ := h
    exact ⟨_, _, rfl, rfl⟩
  | operator =>
    rcases h with ⟨c, rfl, hc⟩ | ⟨p, hp, rfl⟩
    · exact ⟨c, [], rfl, by simp_all [isOperatorChar]⟩
    · have hfirst : ∀ p ∈ pairedOperators, isBlank p.1 = false := by decide
      exact ⟨_, _, rfl, hfirst p hp⟩

/-- Before a blank, a text of some form and what stands behind it are scanned one after the other. -/
theorem tokens_of_form {text : List Char} (h : kind.Form text) (hmore : ∀ x ∈ more.head?, isBlank x = true)
    (offset : Nat) : tokens 0 offset (text ++ more) =
      (tokens 0 (offset + text.length) more).map (⟨kind, String.ofList text, offset⟩ :: ·) := by
  obtain ⟨c, rest, rfl, hblank⟩ := exists_cons_of_form h
  obtain ⟨n, htoken, hle, htake⟩ := token_of_form h hmore offset
  exact tokens_of_token hblank htoken hle htake

end Scan

/-! ## §2 Texts for tokens -/

/-- The texts of tokens, with a space between neighbours. -/
def spaced (ts : List Token) : String :=
  " ".intercalate (ts.map Token.text)

/-- Tokens at the places that they have in their spaced text, when it begins at an offset. -/
def respaced : (offset : Nat) → List Token → List Token
  | _, [] => []
  | offset, t :: ts => { t with offset := offset } :: respaced (offset + t.text.length + 1) ts

/-- A token with its place left out. -/
def Token.kindAndText (t : Token) : TokenKind × String :=
  (t.kind, t.text)

@[simp] theorem map_kindAndText_respaced (offset : Nat) (ts : List Token) :
    (respaced offset ts).map Token.kindAndText = ts.map Token.kindAndText := by
  induction ts generalizing offset with
  | nil => rfl
  | cons t ts ih => simp [respaced, Token.kindAndText, ih]

@[simp] theorem toList_spaced_singleton (t : Token) : (spaced [t]).toList = t.text.toList := by
  simp [spaced]

@[simp] theorem toList_spaced_cons (t u : Token) (ts : List Token) :
    (spaced (t :: u :: ts)).toList = t.text.toList ++ ' ' :: (spaced (u :: ts)).toList := by
  simp [spaced]

namespace Scan

/-- Each token of a spaced text stands before a space or at the end, so it is scanned by itself. -/
theorem tokens_spaced {ts : List Token} (h : ∀ t ∈ ts, t.Proper) (offset : Nat) :
    tokens 0 offset (spaced ts).toList = .ok (respaced offset ts) := by
  induction ts generalizing offset with
  | nil => rfl
  | cons t ts ih =>
    obtain ⟨ht, hts⟩ := List.forall_mem_cons.mp h
    have hform : t.kind.Form t.text.toList := ht
    cases ts with
    | nil =>
      have hend : ∀ x ∈ ([] : List Char).head?, isBlank x = true := nofun
      have htokens := tokens_of_form hform hend offset
      rw [List.append_nil, String.ofList_toList] at htokens
      rw [toList_spaced_singleton, htokens]
      rfl
    | cons u ts =>
      have hspace : ∀ x ∈ (' ' :: (spaced (u :: ts)).toList).head?, isBlank x = true := by simp [isBlank]
      have hbehind : tokens 0 (offset + t.text.length) (' ' :: (spaced (u :: ts)).toList) =
          .ok (respaced (offset + t.text.length + 1) (u :: ts)) := ih hts _
      rw [toList_spaced_cons, tokens_of_form hform hspace offset, String.length_toList, hbehind, String.ofList_toList]
      rfl

end Scan

/-- **Scanning again is stable.** The tokens of a text, written with a space between neighbours, are scanned as tokens
of the same kinds and texts, each behind the one before and a space; and the text of each token alone is scanned as
that token. -/
theorem tokenize_spaced {source : String} {ts : List Token} (h : tokenize source = .ok ts) :
    tokenize (spaced ts) = .ok (respaced 0 ts) ∧
      (respaced 0 ts).map Token.kindAndText = ts.map Token.kindAndText ∧
      ∀ t ∈ ts, tokenize t.text = .ok [⟨t.kind, t.text, 0⟩] := by
  have hproper := form_of_mem_tokenize h
  refine ⟨Scan.tokens_spaced hproper 0, map_kindAndText_respaced 0 ts, fun t ht => ?_⟩
  have hone := Scan.tokens_spaced (List.forall_mem_singleton.mpr (hproper t ht)) 0
  rw [toList_spaced_singleton] at hone
  exact hone

/-- The tokens of `00-1-0"a b".5'\''`, of which every one but the last touches the next. -/
def touchingTokens : List Token :=
  [⟨.integer, "0", 0⟩, ⟨.integer, "0", 1⟩, ⟨.integer, "-1", 2⟩, ⟨.operator, "-", 4⟩, ⟨.integer, "0", 5⟩,
    ⟨.string, "\"a b\"", 6⟩, ⟨.operator, ".", 11⟩, ⟨.integer, "5", 12⟩, ⟨.character, "'\\''", 13⟩]

theorem tokenize_spaced_touching :
    tokenize "00-1-0\"a b\".5'\\''" = .ok touchingTokens ∧
      spaced touchingTokens = "0 0 -1 - 0 \"a b\" . 5 '\\''" ∧
      tokenize "0 0 -1 - 0 \"a b\" . 5 '\\''" = .ok (respaced 0 touchingTokens) ∧
      tokenize "'\\''" = .ok [⟨.character, "'\\''", 0⟩] := by
  have htokens : tokenize "00-1-0\"a b\".5'\\''" = .ok touchingTokens := by decide +kernel
  have htext : spaced touchingTokens = "0 0 -1 - 0 \"a b\" . 5 '\\''" := by decide +kernel
  obtain ⟨hagain, -, halone⟩ := tokenize_spaced htokens
  rw [htext] at hagain
  exact ⟨htokens, htext, hagain, halone ⟨.character, "'\\''", 13⟩ (by simp [touchingTokens])⟩

end BlockLang
