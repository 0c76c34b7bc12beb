import BlockLang.Java.Expression
import BlockLang.Proofs.Grammar.Viable
import BlockLang.Proofs.Token.Quoted
import Mathlib.Data.List.Forall2

/-!
# Quoted literals from text to text

The scanner, the reader and the printer each have a notion of what may stand between quotes. They agree: a text that
is written between quotes is one token, which is read as that text and printed as it was written; and what is scanned
between quotes is read element by element.

## Main statement

- `quoted_literals_survive`: both directions, for strings and for characters.
-/

namespace BlockLang

/-! ## §1 From a text to its token and back -/

/-- The text is scanned as one token of the kind, such a token is read as the literal wherever it stands, and the
literal is printed as the text. -/
structure Literal.WrittenAs (value : Literal) (kind : TokenKind) (text : String) : Prop where
  tokenize_eq : tokenize text = .ok [⟨kind, text, 0⟩]
  primary_eq {expression : Reader Expr} {n : Nat} {s : ReaderState} {t : Token} :
    s.current = some t → t.kind = kind → t.text = text →
      Reader.primary expression n s =
        .ok (.literal ⟨s.nextId, t.offset⟩ value) { s.advance with nextId := s.nextId + 1 }
  literal_eq : Java.literal value = text

variable {quote : Char}

/-- A text that is written between quotes is one token. -/
theorem tokenize_encode (hquote : quote = '\'' ∨ quote = '"') (text : List Char)
    (hone : quote = '\'' → text.length = 1) :
    tokenize (String.ofList (quote :: (Escape.encode text ++ [quote]))) =
      .ok [⟨Scan.literalKind quote, String.ofList (quote :: (Escape.encode text ++ [quote])), 0⟩] := by
  have helements : ∀ e ∈ text.map Escape.encodeChar, IsElement quote e := by
    simp only [List.forall_mem_map]
    exact fun c _ => isElement_encodeChar hquote c
  have hflat : Escape.encode text = (text.map Escape.encodeChar).flatten := List.flatMap_def ..
  unfold tokenize
  rw [String.toList_ofList, hflat]
  exact Scan.tokens_of_closed hquote helements (by simpa using hone) 0

/-- A token that is spelled as a literal is read as that literal. -/
theorem primary_of_spell {value : Literal} (hvalue : value.HasToken) {expression : Reader Expr} {n : Nat}
    {s : ReaderState} {t : Token} (hcurrent : s.current = some t) (hkind : t.kind = value.spell.1)
    (htext : t.text = value.spell.2) :
    Reader.primary expression n s =
      .ok (.literal ⟨s.nextId, t.offset⟩ value) { s.advance with nextId := s.nextId + 1 } := by
  have hread : Reader.literalOf? t = some value := by
    have hspell := literalOf?_spell hvalue t.offset
    rwa [← hkind, ← htext] at hspell
  rw [Reader.primary_of_literal hcurrent (Reader.symbol_of_literalOf? hread).symm]
  rfl

theorem writtenAs_string (x : String) :
    (Literal.string x).WrittenAs .string ("\"" ++ String.ofList (Escape.encode x.toList) ++ "\"") := by
  have htoken : (Literal.string x).HasToken := trivial
  have htext : "\"" ++ String.ofList (Escape.encode x.toList) ++ "\"" = (Literal.string x).spell.2 := by
    simp [Literal.spell, ← String.toList_inj]
  rw [htext]
  exact {
    tokenize_eq := tokenize_encode (Or.inr rfl) x.toList (by simp)
    primary_eq := fun hcurrent hkind heq => primary_of_spell htoken hcurrent hkind heq
    literal_eq := htext }

theorem writtenAs_character (c : Char) :
    (Literal.character c).WrittenAs .character ("'" ++ String.ofList (Escape.encode [c]) ++ "'") := by
  have htoken : (Literal.character c).HasToken := trivial
  have htext : "'" ++ String.ofList (Escape.encode [c]) ++ "'" = (Literal.character c).spell.2 := by
    simp [Literal.spell, ← String.toList_inj]
  have hprinted : Java.literal (.character c) = "'" ++ String.ofList (Escape.encode [c]) ++ "'" := by
    simp [Java.literal, Escape.encode]
  rw [htext] at hprinted ⊢
  exact {
    tokenize_eq := tokenize_encode (Or.inl rfl) [c] (by simp)
    primary_eq := fun hcurrent hkind heq => primary_of_spell htoken hcurrent hkind heq
    literal_eq := hprinted }

/-! ## §2 From a token to its text -/

/-- An element of a literal, and the character that it denotes. -/
inductive Denotes (quote : Char) : List Char → Char → Prop where
  | plain {c : Char} (hslash : c ≠ '\\') (hquote : c ≠ quote) (hbreak : CharClass.lineBreak c = false) :
    Denotes quote [c] c
  | escape {c : Char} (h : Escape.isEscape c = true) : Denotes quote ['\\', c] (Escape.denoted c)

/-- The text is elements between two quotes, and it denotes what they denote, one character each. -/
def Token.Quotes (t : Token) (quote : Char) : Prop :=
  ∃ elements : List (List Char), t.text.toList = quote :: (elements.flatten ++ [quote]) ∧
    List.Forall₂ (Denotes quote) elements (Escape.decodeQuoted t.text).toList

/-- An element is decoded without regard to what follows it. -/
theorem IsElement.decode_append {e : List Char} (h : IsElement quote e) :
    ∃ c, Denotes quote e c ∧ ∀ rest, Escape.decode (e ++ rest) = c :: Escape.decode rest := by
  rcases h with ⟨c, rfl, hslash, hquote, hbreak⟩ | ⟨c, rfl, hescape⟩
  · refine ⟨c, .plain hslash hquote hbreak, fun rest => ?_⟩
    rw [List.singleton_append, Escape.decode]
    · rintro rfl
      exact absurd rfl hslash
    · rintro d more rfl
      exact absurd rfl hslash
  · exact ⟨Escape.denoted c, .escape hescape, fun rest => rfl⟩

theorem denotes_elements {elements : List (List Char)} (h : ∀ e ∈ elements, IsElement quote e) :
    List.Forall₂ (Denotes quote) elements (Escape.decode elements.flatten) := by
  induction elements with
  | nil => exact .nil
  | cons e rest ih =>
    obtain ⟨he, hrest⟩ := List.forall_mem_cons.mp h
    obtain ⟨c, hdenotes, hdecode⟩ := he.decode_append
    rw [List.flatten_cons, hdecode]
    exact .cons hdenotes (ih hrest)

theorem Token.quotes_of_elements {t : Token} {elements : List (List Char)}
    (htext : t.text.toList = quote :: (elements.flatten ++ [quote])) (h : ∀ e ∈ elements, IsElement quote e) :
    t.Quotes quote := by
  refine ⟨elements, htext, ?_⟩
  rw [Escape.decodeQuoted, htext, List.drop_succ_cons, List.drop_zero, List.dropLast_concat, String.toList_ofList]
  exact denotes_elements h

theorem Token.Proper.quotes_string {t : Token} (h : t.Proper) (hkind : t.kind = .string) : t.Quotes '"' := by
  unfold Token.Proper at h
  rw [hkind] at h
  obtain ⟨elements, htext, hall⟩ := h
  exact quotes_of_elements htext hall

theorem Token.Proper.quotes_character {t : Token} (h : t.Proper) (hkind : t.kind = .character) :
    t.Quotes '\'' ∧ ∃ c, (Escape.decodeQuoted t.text).toList = [c] := by
  unfold Token.Proper at h
  rw [hkind] at h
  obtain ⟨body, htext, hbody⟩ := h
  have hone : t.text.toList = '\'' :: ([body].flatten ++ ['\'']) := by rw [htext, List.flatten_singleton]
  obtain ⟨c, hc⟩ := hbody.decode
  exact ⟨quotes_of_elements hone (List.forall_mem_singleton.mpr hbody), c, by simp [Escape.decodeQuoted, htext, hc]⟩

/-- **Quoted literals survive the front end and the back end.** Any text that is written between quotes is one token,
which is read as the literal of that text and printed as it was written. In a scanned literal every backslash begins
an escape sequence and is decoded with its character, a character literal denotes one character, and no literal is
refused when the tokens are read. -/
theorem quoted_literals_survive :
    (∀ x : String,
      (Literal.string x).WrittenAs .string ("\"" ++ String.ofList (Escape.encode x.toList) ++ "\"")) ∧
    (∀ c : Char,
      (Literal.character c).WrittenAs .character ("'" ++ String.ofList (Escape.encode [c]) ++ "'")) ∧
    ∀ (source : String) (ts : List Token), tokenize source = .ok ts →
      (∀ t ∈ ts, t.kind = .string → t.Quotes '"') ∧
      (∀ t ∈ ts, t.kind = .character → t.Quotes '\'' ∧ ∃ c, (Escape.decodeQuoted t.text).toList = [c]) ∧
      ∀ text offset, parse ts ≠ .error (.invalidLiteral text offset) := by
  refine ⟨writtenAs_string, writtenAs_character, fun source ts h => ?_⟩
  have hproper := form_of_mem_tokenize h
  refine ⟨fun t ht => (hproper t ht).quotes_string, fun t ht => (hproper t ht).quotes_character, ?_⟩
  intro text offset herror
  obtain ⟨_, _, _, _, _, -, hblames⟩ := viable_of_parse_error hproper herror
  exact hblames text offset rfl

/-- The tokens of `"\\" '\''`: an escaped backslash before the closing quote, and an escaped quote. -/
def quotedTokens : List Token :=
  [⟨.string, "\"\\\\\"", 0⟩, ⟨.character, "'\\''", 5⟩]

theorem quoted_literals_survive_backslash :
    tokenize "\"\\\\\" '\\''" = .ok quotedTokens ∧ Token.Quotes ⟨.string, "\"\\\\\"", 0⟩ '"' ∧
      Token.Quotes ⟨.character, "'\\''", 5⟩ '\'' ∧
      ∀ text offset, parse quotedTokens ≠ .error (.invalidLiteral text offset) := by
  have htokens : tokenize "\"\\\\\" '\\''" = .ok quotedTokens := by rfl
  obtain ⟨-, -, hscanned⟩ := quoted_literals_survive
  obtain ⟨hstring, hcharacter, hvalid⟩ := hscanned _ _ htokens
  exact ⟨htokens, hstring _ (by simp [quotedTokens]) rfl, (hcharacter _ (by simp [quotedTokens]) rfl).1, hvalid⟩

end BlockLang
