import BlockLang.Proofs.Grammar.Written
import BlockLang.Proofs.Stateful
import BlockLang.Proofs.Token.Meaning

/-!
# Steps of reading

What each single step of a reader does when it succeeds, and what a reader has passed between two places: the symbols
of the tokens it has consumed and the ids it has handed out.

The text of punctuation or of a reserved word also tells the kind of its token if the token is proper, as scanned tokens
are; for such tokens comparing texts is comparing symbols.
-/

namespace BlockLang

open BlockLang.Symbol

/-! ## §1 Words and punctuation -/

/-- Punctuation and operators. -/
def marks : List String :=
  ["(", ")", "[", "]", ",", ";", ":", "=", "&&", "||", "==", "!=", "<", ">", "+", "-", "*", "/", "^"]

namespace Token

variable {t : Token}

/-- A name, a reserved word or punctuation stands for its text. -/
theorem symbol_of_kind (h : t.kind = .identifier ∨ t.kind = .operator) : t.symbol = .word t.kind t.text := by
  unfold Token.symbol Reader.literalOf?
  rcases h with h | h <;> simp [h]

theorem first_of_mem_marks {text : String} (h : text ∈ marks) : ∃ c rest, text.toList = c :: rest ∧
    startsName c = false ∧ c.isDigit = false ∧ c ≠ '\'' ∧ c ≠ '"' ∧ (c = '-' → rest = []) := by
  simp only [marks, List.mem_cons, List.not_mem_nil, or_false] at h
  rcases h with rfl | rfl | rfl | rfl | rfl | rfl | rfl | rfl | rfl | rfl | rfl | rfl | rfl | rfl | rfl | rfl | rfl |
    rfl | rfl <;> exact ⟨_, _, rfl, by decide⟩

theorem first_of_mem_keywords {text : String} (h : text ∈ keywords) :
    ∃ c rest, text.toList = c :: rest ∧ startsName c = true := by
  simp only [keywords, List.mem_cons, List.not_mem_nil, or_false] at h
  rcases h with rfl | rfl | rfl | rfl | rfl | rfl | rfl | rfl | rfl | rfl | rfl | rfl | rfl | rfl | rfl | rfl |
    rfl <;> exact ⟨_, _, rfl, by decide⟩

/-- No punctuation begins as a name does. -/
theorem not_mem_marks_of_startsName {text : String} {c : Char} {rest : List Char} (htext : text.toList = c :: rest)
    (hname : startsName c = true) : text ∉ marks := by
  intro hmark
  obtain ⟨c', rest', htext', hname', -⟩ := first_of_mem_marks hmark
  obtain rfl := (List.cons.inj (htext.symm.trans htext')).1
  rw [hname'] at hname
  exact Bool.false_ne_true hname

/-- No word is punctuation: names begin with letters. -/
theorem not_mem_keywords_of_mem_marks {text : String} (h : text ∈ marks) : text ∉ keywords := by
  intro hword
  obtain ⟨c, rest, htext, hname⟩ := first_of_mem_keywords hword
  exact not_mem_marks_of_startsName htext hname h

/-- Punctuation is an operator token. -/
theorem Proper.kind_of_mem_marks (h : t.Proper) (hmem : t.text ∈ marks) : t.kind = .operator := by
  obtain ⟨c, rest, htext, hname, hdigit, hsingle, hdouble, hminus⟩ := first_of_mem_marks hmem
  exact h.kind_of_mark htext hname hdigit hsingle hdouble hminus

/-- A reserved word is an identifier token. -/
theorem Proper.kind_of_mem_keywords (h : t.Proper) (hmem : t.text ∈ keywords) : t.kind = .identifier := by
  obtain ⟨c, rest, htext, hname⟩ := first_of_mem_keywords hmem
  exact h.kind_of_word htext hname

/-- The text of punctuation and of reserved words tells the kind of a token. -/
structure Readable (t : Token) : Prop where
  mark : t.text ∈ marks → t.kind = .operator
  word : t.text ∈ keywords → t.kind = .identifier

theorem Proper.readable (h : t.Proper) : t.Readable :=
  ⟨h.kind_of_mem_marks, h.kind_of_mem_keywords⟩

theorem Readable.symbol_of_mem_marks (h : t.Readable) (hmem : t.text ∈ marks) : t.symbol = Symbol.mark t.text := by
  have hkind := h.mark hmem
  rw [symbol_of_kind (Or.inr hkind), hkind, Symbol.mark]

theorem Readable.symbol_of_mem_keywords (h : t.Readable) (hmem : t.text ∈ keywords) : t.symbol = ident t.text := by
  have hkind := h.word hmem
  rw [symbol_of_kind (Or.inl hkind), hkind, ident]

/-- An identifier token that is not reserved is a name. -/
theorem Proper.isName (h : t.Proper) (hkind : t.kind = .identifier) (hword : isKeyword t.text = false) :
    IsName t.text := by
  unfold Token.Proper at h
  rw [hkind] at h
  exact ⟨h, hword⟩

end Token

namespace Reader

open Stateful

variable {α β : Type} {s t u : ReaderState}

/-! ## §2 Results -/

@[simp] theorem pure_apply (a : α) : (pure a : Reader α) s = .ok a s := rfl

@[simp] theorem throw_apply (e : GrammarError) : (throw e : Reader α) s = .error e s := rfl

/-! ## §3 Single steps -/

@[simp] theorem get_bind (f : ReaderState → Reader β) : ((get : Reader ReaderState) >>= f) s = f s s := rfl

@[simp] theorem offset_bind (f : Nat → Reader β) : (offset >>= f) s = f s.offset s := rfl

@[simp] theorem advance_bind (f : Unit → Reader β) : (advance >>= f) s = f () s.advance := rfl

@[simp] theorem freshId_bind (f : Nat → Reader β) :
    (freshId >>= f) s = f s.nextId { s with nextId := s.nextId + 1 } := rfl

@[simp] theorem unexpected_apply (expected : Expectation) :
    (unexpected expected : Reader α) s = .error (s.unexpected expected) s := rfl

theorem eat_apply (text : String) : eat text s = if s.peek text then .ok true s.advance else .ok false s := by
  unfold eat
  rw [get_bind]
  cases s.peek text <;> rfl

theorem expect_apply (text : String) :
    expect text s = if s.peek text then .ok () s.advance else .error (s.unexpected (.oneOf [text])) s := by
  unfold expect
  rw [get_bind]
  cases s.peek text <;> rfl

/-- Eating moves on exactly if the text is next. -/
@[simp] theorem eat_bind (text : String) (f : Bool → Reader β) :
    (eat text >>= f) s = if s.peek text then f true s.advance else f false s := by
  change EStateM.bind (eat text) f s = _
  unfold EStateM.bind
  rw [eat_apply]
  cases s.peek text <;> rfl

/-- A text that is eaten decides which of two readers goes on. -/
theorem eat_choice (text : String) (a b : Reader β) :
    (eat text >>= fun found => if found = true then a else b) s = if s.peek text then a s.advance else b s := by
  rw [eat_bind]
  cases s.peek text <;> rfl

theorem expect_eq_ok {text : String} {a : Unit} :
    expect text s = .ok a t ↔ s.peek text = true ∧ t = s.advance := by
  rw [expect_apply]
  cases s.peek text <;> simp [eq_comm]

theorem identifier_eq_ok {name : String} :
    identifier s = .ok name t ↔ ∃ tok, s.current = some tok ∧ tok.kind = .identifier ∧ isKeyword tok.text = false ∧
      name = tok.text ∧ t = s.advance := by
  unfold identifier
  rw [get_bind]
  cases h : s.current with
  | none => simp
  | some tok =>
    by_cases hk : tok.kind = .identifier ∧ (!isKeyword tok.text) = true
    · have hword : isKeyword tok.text = false := by simpa using hk.2
      simp only [if_pos hk, advance_bind, pure_apply, EStateM.Result.ok.injEq, Option.some.injEq]
      constructor
      · rintro ⟨rfl, rfl⟩
        exact ⟨tok, rfl, hk.1, hword, rfl, rfl⟩
      · rintro ⟨tok', rfl, -, -, rfl, rfl⟩
        exact ⟨rfl, rfl⟩
    · simp only [if_neg hk, unexpected_apply, reduceCtorEq, false_iff, Option.some.injEq]
      rintro ⟨tok', rfl, hkind, hword, -⟩
      exact hk ⟨hkind, by simp [hword]⟩

end Reader

/-! ## §4 Places -/

namespace ReaderState

/-- Every token that is left is proper. -/
def Proper (s : ReaderState) : Prop :=
  ∀ t ∈ s.rest, t.Proper

/-- Reading from `s` to `t` consumes the tokens of `symbols` and hands out `ids`.  Tokens that are not proper are
counted, but not compared. -/
structure Passes (s : ReaderState) (symbols : List Symbol) (ids : List Nat) (t : ReaderState) : Prop where
  tokens : ∃ used, s.rest = used ++ t.rest ∧ used.length = symbols.length ∧
    (s.Proper → used.map Token.symbol = symbols)
  fresh : ids = List.range' s.nextId ids.length
  nextId : t.nextId = s.nextId + ids.length
  endOffset : t.endOffset = s.endOffset

namespace Passes

variable {s t u : ReaderState} {a b : List Symbol} {i j : List Nat}

theorem refl (s : ReaderState) : s.Passes [] [] s :=
  ⟨⟨[], rfl, rfl, fun _ => rfl⟩, rfl, rfl, rfl⟩

theorem proper (h : s.Passes a i t) (hs : s.Proper) : t.Proper := by
  obtain ⟨used, hrest, -⟩ := h.tokens
  intro tok htok
  exact hs tok (by rw [hrest]; exact List.mem_append_right _ htok)

theorem trans (h : s.Passes a i t) (g : t.Passes b j u) : s.Passes (a ++ b) (i ++ j) u := by
  obtain ⟨used, hrest, hlength, hused⟩ := h.tokens
  obtain ⟨later, hrest', hlength', hlater⟩ := g.tokens
  refine ⟨⟨used ++ later, ?_, ?_, ?_⟩, ?_, ?_, g.endOffset.trans h.endOffset⟩
  · rw [hrest, hrest', List.append_assoc]
  · rw [List.length_append, List.length_append, hlength, hlength']
  · intro hs
    rw [List.map_append, hused hs, hlater (h.proper hs)]
  · rw [List.length_append, ← List.range'_append_1, ← h.nextId, ← g.fresh, ← h.fresh]
  · rw [g.nextId, h.nextId, List.length_append, Nat.add_assoc]

theorem congr (h : s.Passes a i t) (hlength : a.length = b.length) (hab : s.Proper → a = b) : s.Passes b i t := by
  obtain ⟨used, hrest, hused, hsymbols⟩ := h.tokens
  exact ⟨⟨used, hrest, hused.trans hlength, fun hs => (hsymbols hs).trans (hab hs)⟩, h.fresh, h.nextId, h.endOffset⟩

/-- What follows a passed part is what is left after it. -/
theorem drop_eq (h : s.Passes a i t) : s.rest.drop a.length = t.rest := by
  obtain ⟨used, hrest, hlength, -⟩ := h.tokens
  rw [hrest, ← hlength, List.drop_left]

theorem drop_eq_of (h : s.Passes a i t) {n : Nat} (hn : n = a.length) : s.rest.drop n = t.rest := by
  rw [hn, h.drop_eq]

/-- A part with at least one symbol starts at the place it is read from. -/
theorem startsAt (h : s.Passes a i t) (hne : a ≠ []) : StartsAt s.offset s.rest := by
  obtain ⟨used, hrest, hlength, -⟩ := h.tokens
  cases used with
  | nil => exact absurd (List.length_eq_zero_iff.mp hlength.symm) hne
  | cons tok more => simp [StartsAt, ReaderState.offset, ReaderState.current, hrest]

/-- Passing one token. -/
theorem of_current {tok : Token} {symbol : Symbol} (h : s.current = some tok)
    (hsymbol : tok.Proper → tok.symbol = symbol) : s.Passes [symbol] [] s.advance := by
  obtain ⟨more, hrest⟩ : ∃ more, s.rest = tok :: more := List.head?_eq_some_iff.mp h
  refine ⟨⟨[tok], by simp [ReaderState.advance, hrest], rfl, ?_⟩, rfl, rfl, rfl⟩
  intro hs
  rw [List.map_singleton, hsymbol (hs tok (by simp [hrest]))]

/-- Handing out one id. -/
theorem of_freshId : s.Passes [] [s.nextId] { s with nextId := s.nextId + 1 } :=
  ⟨⟨[], rfl, rfl, fun _ => rfl⟩, rfl, rfl, rfl⟩

end Passes

variable {s : ReaderState} {text : String}

/-- A text is next exactly if a token with that text is. -/
theorem peek_iff : s.peek text = true ↔ ∃ tok, s.current = some tok ∧ tok.text = text := by
  unfold peek
  cases s.current <;> simp

/-- The next token of a proper place is proper. -/
theorem Proper.current (hs : s.Proper) {tok : Token} (h : s.current = some tok) : tok.Proper := by
  obtain ⟨more, hrest⟩ : ∃ more, s.rest = tok :: more := List.head?_eq_some_iff.mp h
  exact hs tok (by simp [hrest])

/-- Passing punctuation that is next. -/
theorem passes_mark (h : s.peek text = true) (hmem : text ∈ marks) : s.Passes [mark text] [] s.advance := by
  obtain ⟨tok, hcurrent, rfl⟩ := peek_iff.mp h
  exact Passes.of_current hcurrent fun htok => htok.readable.symbol_of_mem_marks hmem

/-- Passing a reserved word that is next. -/
theorem passes_word (h : s.peek text = true) (hmem : text ∈ keywords) : s.Passes [ident text] [] s.advance := by
  obtain ⟨tok, hcurrent, rfl⟩ := peek_iff.mp h
  exact Passes.of_current hcurrent fun htok => htok.readable.symbol_of_mem_keywords hmem

end ReaderState

namespace Reader

variable {s t : ReaderState}

/-- Reading a name passes it. -/
theorem passes_of_identifier {x : String} (h : identifier s = .ok x t) :
    s.Passes [ident x] [] t ∧ (s.Proper → IsName x) := by
  obtain ⟨tok, hcurrent, hkind, hword, rfl, rfl⟩ := identifier_eq_ok.mp h
  refine ⟨ReaderState.Passes.of_current hcurrent fun _ => ?_, fun hs => (hs.current hcurrent).isName hkind hword⟩
  rw [Token.symbol_of_kind (Or.inl hkind), hkind, ident]

end Reader

/-! ## §5 The operator that is next -/

/-- The operator that the next token writes, if it writes one. -/
def ReaderState.operator? (s : ReaderState) : Option Operator :=
  s.current.bind fun t => if t.kind = .operator then Operator.ofSymbol? t.text else none

theorem ReaderState.operator?_eq_some_iff {s : ReaderState} {op : Operator} :
    s.operator? = some op ↔ ∃ tok, s.current = some tok ∧ tok.kind = .operator ∧ tok.text = op.symbol := by
  unfold ReaderState.operator?
  rw [Option.bind_eq_some_iff]
  constructor
  · rintro ⟨tok, hcurrent, htok⟩
    split_ifs at htok with hkind
    exact ⟨tok, hcurrent, hkind, (Operator.symbol_of_ofSymbol? htok).symm⟩
  · rintro ⟨tok, hcurrent, hkind, htext⟩
    exact ⟨tok, hcurrent, by rw [if_pos hkind, htext, Operator.ofSymbol?_symbol]⟩

theorem ReaderState.peek_of_operator? {s : ReaderState} {op : Operator} (h : s.operator? = some op) :
    s.peek op.symbol = true := by
  obtain ⟨tok, hcurrent, -, htext⟩ := ReaderState.operator?_eq_some_iff.mp h
  exact peek_iff.mpr ⟨tok, hcurrent, htext⟩

theorem Operator.symbol_mem_marks (op : Operator) : op.symbol ∈ marks := by
  cases op <;> decide

namespace Reader

variable {s : ReaderState}

theorem operator?_apply (level : Nat) : operator? level s =
    match s.operator? with
    | some op => if op.level = level then .ok (some op) s.advance else .ok none s
    | none => .ok none s := by
  unfold operator? ReaderState.operator?
  rw [get_bind]
  cases s.current with
  | none => rfl
  | some tok =>
    simp only [Option.bind_some]
    split_ifs with hkind
    · cases Operator.ofSymbol? tok.text with
      | none => rfl
      | some op =>
        simp only
        split_ifs <;> rfl
    · rfl

end Reader

end BlockLang
