import BlockLang.Proofs.Grammar.Completeness
import BlockLang.Proofs.Grammar.Soundness
import BlockLang.Proofs.Token.Spelling
import Mathlib.Data.List.Forall2

/-!
# Writing and reading

`unparse` writes a tree as tokens, one for each symbol of its written form.  Trees and their tokens determine each
other: writing a parsed program gives back the tokens that it was parsed from, and reading a written program gives back
the program.

## Main statement

- `parse_tree_faithful`: both directions.
-/

namespace BlockLang

open BlockLang.Symbol

/-! ## §1 Symbols as tokens -/

/-- A token that a symbol stands for. -/
def Symbol.token : Symbol → Token
  | .word kind text => ⟨kind, text, 0⟩
  | .literal value => ⟨value.spell.1, value.spell.2, 0⟩

/-- The tokens of a program. -/
def unparse (p : Program) : List Token :=
  p.symbols.map Symbol.token

/-- The tokens have one kind and one text, or denote one literal. -/
def Token.Agrees (a b : Token) : Prop :=
  a.kind = b.kind ∧ (a.text = b.text ∨ ∃ value, Reader.literalOf? a = some value ∧ Reader.literalOf? b = some value)

/-- The scales of the decimals of a program are 64-bit numbers. -/
def Program.ScalesFit (p : Program) : Prop :=
  ∀ d, Symbol.literal (.decimal d) ∈ p.symbols → Decimal.scaleFits d.scale = true

/-- Names, reserved words, punctuation, and literals that are no reserved words. -/
def Symbol.Plain : Symbol → Prop
  | .word .identifier text => IsName text ∨ text ∈ keywords
  | .word .operator text => text ∈ marks
  | .word _ _ => False
  | .literal value => value.symbol = .literal value

theorem Token.agrees_of_symbol_eq {a b : Token} (h : a.symbol = b.symbol) : a.Agrees b := by
  unfold Token.symbol at h
  split at h
  · rename_i value ha
    split at h
    · rename_i value' hb
      obtain rfl : value = value' := by simpa using h
      exact ⟨(kind_of_literalOf? ha).trans (kind_of_literalOf? hb).symm, Or.inr ⟨value, ha, hb⟩⟩
    · simp at h
  · split at h
    · simp at h
    · obtain ⟨hkind, htext⟩ : a.kind = b.kind ∧ a.text = b.text := by simpa using h
      exact ⟨hkind, Or.inl htext⟩

/-- A token that is written for a symbol stands for it. -/
theorem Symbol.Plain.symbol_token {symbol : Symbol} (h : symbol.Plain)
    (hscale : ∀ d, symbol = .literal (.decimal d) → Decimal.scaleFits d.scale = true ∨ 0 < d.scale) :
    symbol.token.symbol = symbol ∧ symbol.token.Readable := by
  match symbol, h with
  | .word .identifier text, h =>
    refine ⟨Token.symbol_of_kind (Or.inl rfl), fun hmem => ?_, fun _ => rfl⟩
    obtain ⟨c, rest, htext, hname⟩ : ∃ c rest, text.toList = c :: rest ∧ startsName c = true := by
      rcases h with ⟨⟨c, rest, heq, hc, -⟩, -⟩ | h
      · exact ⟨c, rest, heq, hc⟩
      · exact Token.first_of_mem_keywords h
    exact absurd hmem (Token.not_mem_marks_of_startsName htext hname)
  | .word .operator text, h =>
    refine ⟨Token.symbol_of_kind (Or.inr rfl), fun _ => rfl, fun hmem => ?_⟩
    exact absurd hmem (Token.not_mem_keywords_of_mem_marks h)
  | .literal value, h =>
    have htoken : value.HasToken := by
      -- Nothing and the truth values are written as words, so no plain symbol is such a literal.
      cases value with
      | nil => simp [Symbol.Plain, Literal.symbol, ident] at h
      | boolean b => cases b <;> simp [Symbol.Plain, Literal.symbol, ident] at h
      | decimal d => exact hscale d rfl
      | _ => trivial
    refine ⟨by rw [Symbol.token, Token.symbol, literalOf?_spell htoken], ?_⟩
    -- A literal begins with a digit, a quote or the sign of a number, as no mark and no word does.
    obtain ⟨c, rest, htext, hc⟩ := Literal.isSpelling_spell htoken
    constructor
    · intro hmem
      obtain ⟨c', rest', htext', -, hdigit, hsingle, hdouble, hminus⟩ := Token.first_of_mem_marks hmem
      obtain ⟨rfl, rfl⟩ := List.cons.inj (htext.symm.trans htext')
      rcases hc with hc | rfl | rfl | ⟨rfl, hne⟩
      · simp [hc] at hdigit
      · exact absurd rfl hsingle
      · exact absurd rfl hdouble
      · exact absurd (hminus rfl) hne
    · intro hmem
      obtain ⟨c', rest', htext', hname⟩ := Token.first_of_mem_keywords hmem
      obtain rfl := (List.cons.inj (htext.symm.trans htext')).1
      rcases hc with hc | rfl | rfl | ⟨rfl, -⟩
      · simp [not_startsName_of_isDigit hc] at hname
      · exact absurd hname (by decide)
      · exact absurd hname (by decide)
      · exact absurd hname (by decide)

/-! ## §2 The symbols of trees are plain -/

/-- Every symbol is plain. -/
def AllPlain (symbols : List Symbol) : Prop :=
  ∀ symbol ∈ symbols, symbol.Plain

section AllPlain

variable {a b : List Symbol} {symbol : Symbol} {text : String}

@[simp] theorem allPlain_nil : AllPlain [] := by simp [AllPlain]

@[simp] theorem allPlain_cons : AllPlain (symbol :: a) ↔ symbol.Plain ∧ AllPlain a := by simp [AllPlain]

@[simp] theorem allPlain_append : AllPlain (a ++ b) ↔ AllPlain a ∧ AllPlain b := by
  simp [AllPlain, or_imp, forall_and]

theorem IsName.plain (h : IsName text) : (ident text).Plain := Or.inl h

theorem plain_keyword (h : text ∈ keywords) : (ident text).Plain := Or.inr h

theorem plain_mark (h : text ∈ marks) : (mark text).Plain := h

theorem Literal.plain (value : Literal) : value.symbol.Plain := by
  cases value with
  | nil => exact plain_keyword (by decide)
  | boolean b => cases b <;> exact plain_keyword (by decide)
  | _ => rfl

theorem allPlain_commas {items : List (List Symbol)} (h : ∀ a ∈ items, AllPlain a) : AllPlain (commas items) := by
  cases items with
  | nil => exact allPlain_nil
  | cons first rest =>
    rw [commas, allPlain_append]
    refine ⟨h first (List.mem_cons_self ..), fun symbol hsymbol => ?_⟩
    obtain ⟨a, ha, hmem⟩ := List.mem_flatMap.mp hsymbol
    rcases List.mem_cons.mp hmem with rfl | hmem
    · exact plain_mark (by decide)
    · exact h a (List.mem_cons_of_mem _ ha) symbol hmem

theorem allPlain_flatMap {α : Type} {f : α → List Symbol} {xs : List α} (h : ∀ x ∈ xs, AllPlain (f x)) :
    AllPlain (xs.flatMap f) := by
  intro symbol hsymbol
  obtain ⟨x, hx, hmem⟩ := List.mem_flatMap.mp hsymbol
  exact h x hx symbol hmem

end AllPlain

mutual

theorem Expr.plain : ∀ e : Expr, e.WellFormed → AllPlain e.symbols
  | .literal _ value, _ => by simpa [Expr.symbols] using value.plain
  | .group _ inner, h => by
    have hinner : inner.WellFormed := h
    simpa [Expr.symbols, Expr.plain inner hinner] using ⟨plain_mark (by decide), plain_mark (by decide)⟩
  | .binary _ op left right, ⟨_, _, hl, hr⟩ => by
    simpa [Expr.symbols, Expr.plain left hl, Expr.plain right hr] using plain_mark op.symbol_mem_marks
  | .variable _ x, h => by simpa [Expr.symbols] using h.plain
  | .element _ x index, h => by
    simpa [Expr.symbols, Expr.plain index h.2, h.1.plain] using ⟨plain_mark (by decide), plain_mark (by decide)⟩
  | .call _ x arguments, h => by
    have harguments := allPlain_commas (Expr.allPlain arguments h.2)
    rw [Expr.allSymbols_eq] at harguments
    simpa [Expr.symbols, harguments, h.1.plain] using ⟨plain_mark (by decide), plain_mark (by decide)⟩
  | .list _ elements, h => h.elim

theorem Expr.allPlain : ∀ es : List Expr, Expr.AllWellFormed es → ∀ a ∈ Expr.allSymbols es, AllPlain a
  | [], _ => by simp [Expr.allSymbols]
  | e :: rest, h => by
    intro a ha
    rcases List.mem_cons.mp ha with rfl | ha
    · exact Expr.plain e h.1
    · exact Expr.allPlain rest h.2 a ha

end

theorem allPlain_typeSymbols {type : Option String} (h : ∀ t ∈ type, IsName t) : AllPlain (typeSymbols type) := by
  cases type with
  | none => exact allPlain_nil
  | some t => simpa [typeSymbols, (h t rfl).plain] using plain_mark (by decide)

theorem allPlain_valueSymbols {value : Option Expr} (h : ∀ e ∈ value, AllPlain e.symbols) :
    AllPlain (valueSymbols value) := by
  cases value with
  | none => exact allPlain_nil
  | some e => simpa [valueSymbols, h e rfl] using plain_mark (by decide)

mutual

theorem Statement.plain : ∀ x : Statement, x.WellFormed → AllPlain x.symbols
  | .expression _ value, h => by
    have hvalue : value.WellFormed := h
    simpa [Statement.symbols, value.plain hvalue] using plain_mark (by decide)
  | .declaration _ x type value, ⟨hx, htype, hvalue⟩ => by
    have hvalue := allPlain_valueSymbols fun e he => e.plain (hvalue e he)
    simpa [Statement.symbols, hx.plain, allPlain_typeSymbols htype, hvalue] using
      ⟨plain_keyword (by decide), plain_mark (by decide)⟩
  | .assignment _ receiver value, ⟨hreceiver, hvalue⟩ => by
    simpa [Statement.symbols, receiver.plain hreceiver, value.plain hvalue] using
      ⟨plain_mark (by decide), plain_mark (by decide)⟩
  | .conditional _ condition onTrue onFalse, ⟨hcondition, _, htrue, hfalse⟩ => by
    have helse : AllPlain (if onFalse.isEmpty then [] else ident "ELSE" :: blockSymbols onFalse) := by
      split_ifs
      · exact allPlain_nil
      · exact allPlain_cons.mpr ⟨plain_keyword (by decide), block_plain onFalse hfalse⟩
    rw [Statement.symbols]
    simp only [allPlain_cons, allPlain_append, List.cons_append]
    have hbranch := block_plain onTrue htrue
    exact ⟨plain_keyword (by decide), ⟨⟨⟨condition.plain hcondition, plain_keyword (by decide), hbranch⟩, helse⟩,
      plain_keyword (by decide), allPlain_nil⟩⟩
  | .switch _ condition cases, ⟨hcondition, hcases⟩ => by
    rw [Statement.symbols]
    simp only [allPlain_cons, allPlain_append, List.cons_append]
    exact ⟨plain_keyword (by decide), ⟨condition.plain hcondition, arms_plain cases hcases⟩,
      plain_keyword (by decide), allPlain_nil⟩
  | .loop _ condition body, ⟨hcondition, _, hbody⟩ => by
    rw [Statement.symbols]
    simp only [allPlain_cons, allPlain_append, List.cons_append]
    exact ⟨plain_keyword (by decide), ⟨condition.plain hcondition, plain_keyword (by decide), block_plain body hbody⟩,
      plain_keyword (by decide), allPlain_nil⟩
  | .returning _ value, h => by
    have hvalue : value.WellFormed := h
    simpa [Statement.symbols, value.plain hvalue] using ⟨plain_keyword (by decide), plain_mark (by decide)⟩

theorem block_plain : ∀ body : List Statement, AllWellFormed body → AllPlain (blockSymbols body)
  | [], _ => allPlain_nil
  | first :: rest, h => allPlain_append.mpr ⟨first.plain h.1, block_plain rest h.2⟩

theorem Case.plain : ∀ arm : Case, arm.WellFormed → AllPlain arm.symbols
  | .mk _ none body, ⟨_, _, hbody⟩ => allPlain_cons.mpr ⟨plain_keyword (by decide), block_plain body hbody⟩
  | .mk _ (some value) body, ⟨hvalue, _, hbody⟩ => by
    simpa only [Case.symbols, allPlain_cons, allPlain_append, List.cons_append] using
      ⟨plain_keyword (by decide), value.plain (hvalue value rfl), plain_mark (by decide), block_plain body hbody⟩

theorem arms_plain : ∀ cases : List Case, ArmsWellFormed cases → AllPlain (armSymbols cases)
  | [], _ => allPlain_nil
  | [arm], h => allPlain_append.mpr ⟨arm.plain h.1, allPlain_nil⟩
  | arm :: other :: rest, ⟨harm, hrest⟩ => by
    have hrest : ArmsWellFormed (other :: rest) := by
      rcases hrest with ⟨hnil, -⟩ | ⟨-, hrest⟩
      · exact absurd hnil (List.cons_ne_nil _ _)
      · exact hrest
    exact allPlain_append.mpr ⟨arm.plain harm, arms_plain (other :: rest) hrest⟩

end

theorem Function.plain {f : Function} (h : f.WellFormed) : AllPlain f.symbols := by
  obtain ⟨hname, hparameters, hreturns, -, hbody⟩ := h
  have hitems : AllPlain (commas (f.parameters.map Parameter.symbols)) := by
    apply allPlain_commas
    intro a ha
    obtain ⟨p, hp, rfl⟩ := List.mem_map.mp ha
    simpa [Parameter.symbols, (hparameters p hp).1.plain, (hparameters p hp).2.plain] using plain_mark (by decide)
  rw [Function.symbols]
  simp only [allPlain_cons, allPlain_append, List.cons_append]
  exact ⟨plain_keyword (by decide), hname.plain, plain_mark (by decide),
    ⟨⟨hitems, plain_mark (by decide), allPlain_typeSymbols hreturns⟩, plain_keyword (by decide),
      block_plain f.body hbody⟩, plain_keyword (by decide), allPlain_nil⟩

theorem Global.plain {g : Global} (h : g.WellFormed) : AllPlain g.symbols := by
  obtain ⟨hname, htype, hvalue⟩ := h
  have hkeyword : g.keyword ∈ keywords := by
    unfold Global.keyword
    split_ifs <;> decide
  have hplain : AllPlain (valueSymbols g.value) := by
    apply allPlain_valueSymbols
    intro e he
    unfold Global.ValueWellFormed at hvalue
    obtain he : g.value = some e := he
    rw [he] at hvalue
    cases e with
    | list node elements =>
      obtain ⟨-, -, -, helements⟩ := hvalue
      have hitems := allPlain_commas (Expr.allPlain elements helements)
      rw [Expr.allSymbols_eq] at hitems
      simpa [Expr.symbols, hitems] using ⟨plain_mark (by decide), plain_mark (by decide)⟩
    | _ => exact Expr.plain _ hvalue
  rw [Global.symbols]
  simp only [allPlain_cons, allPlain_append, List.cons_append]
  exact ⟨plain_keyword hkeyword, hname.plain, ⟨allPlain_typeSymbols htype, hplain⟩, plain_mark (by decide),
    allPlain_nil⟩

theorem Program.plain {p : Program} (h : p.WellFormed) : AllPlain p.symbols :=
  allPlain_append.mpr ⟨allPlain_flatMap fun g hg => Global.plain (h.globals g hg),
    allPlain_flatMap fun f hf => Function.plain (h.functions f hf)⟩

/-! ## §3 Both directions -/

/-- A scanned decimal has digits after its point. -/
theorem scale_pos_of_literalOf? {t : Token} {d : Decimal} (ht : t.Proper)
    (h : Reader.literalOf? t = some (.decimal d)) : 0 < d.scale := by
  unfold Reader.literalOf? at h
  -- Only a decimal token denotes a decimal, and its form has a fraction.
  split at h
  · simp at h
  · rename_i hkind
    unfold Token.Proper at ht
    rw [hkind] at ht
    obtain ⟨sign, whole, fraction, htext, hsign, hwhole, hne, hfraction⟩ := ht
    obtain ⟨hwne, hwdigits⟩ := hwhole.digits
    rw [htext, Numeral.readDecimal?_eq hsign hwne hwdigits hfraction] at h
    obtain rfl : (⟨_, _⟩ : Decimal) = d := by simpa using h
    simpa using List.length_pos_iff.mpr hne
  · split at h <;> simp at h
  · simp at h
  · simp at h
  · simp at h

theorem map_symbol_unparse {p : Program} (hwf : p.WellFormed)
    (hscale : ∀ d, Symbol.literal (.decimal d) ∈ p.symbols → Decimal.scaleFits d.scale = true ∨ 0 < d.scale) :
    (unparse p).map Token.symbol = p.symbols ∧ ∀ t ∈ unparse p, t.Readable := by
  have hall : ∀ symbol ∈ p.symbols, symbol.token.symbol = symbol ∧ symbol.token.Readable := by
    intro symbol hmem
    apply (Program.plain hwf symbol hmem).symbol_token
    rintro d rfl
    exact hscale d hmem
  constructor
  · rw [unparse, List.map_map]
    calc p.symbols.map (Token.symbol ∘ Symbol.token) = p.symbols.map id :=
          List.map_congr_left fun symbol hmem => (hall symbol hmem).1
      _ = p.symbols := List.map_id _
  · intro t ht
    obtain ⟨symbol, hmem, rfl⟩ := List.mem_map.mp ht
    exact (hall symbol hmem).2

/-- Writing a parsed program gives its tokens back. -/
theorem agrees_unparse {ts : List Token} {p : Program} (hts : ∀ t ∈ ts, t.Proper) (h : parse ts = .ok p) :
    List.Forall₂ Token.Agrees (unparse p) ts := by
  have hsymbols := symbols_of_parse hts h
  have hunparse : (unparse p).map Token.symbol = ts.map Token.symbol := by
    rw [hsymbols]
    refine (map_symbol_unparse (wellFormed_of_parse hts h) fun d hd => Or.inr ?_).1
    -- Every literal of the program is that of a scanned token.
    rw [← hsymbols] at hd
    obtain ⟨t, ht, heq⟩ := List.mem_map.mp hd
    exact scale_pos_of_literalOf? (hts t ht) (Reader.literalOf?_of_symbol heq)
  have hforall : List.Forall₂ (· = ·) ((unparse p).map Token.symbol) (ts.map Token.symbol) := by
    rw [List.forall₂_eq_eq_eq]
    exact hunparse
  exact (List.forall₂_map_right_iff.mp (List.forall₂_map_left_iff.mp hforall)).imp fun a b => Token.agrees_of_symbol_eq

/-- Writing a parsed program gives back its tokens, its nodes stand where they say, and its operators bind as the tree
says.  Conversely a program that the grammar can write is parsed from its tokens, up to ids and offsets. -/
theorem parse_tree_faithful :
    (∀ source ts p, tokenize source = .ok ts → parse ts = .ok p →
      List.Forall₂ Token.Agrees (unparse p) ts ∧ p.Anchored ts ∧ p.WellFormed) ∧
    ∀ p : Program, p.WellFormed → p.ScalesFit → ∃ p', parse (unparse p) = .ok p' ∧ p'.outline = p.outline := by
  constructor
  -- From text to tree and back.
  · intro source ts p hts h
    have hproper := form_of_mem_tokenize hts
    exact ⟨agrees_unparse hproper h, anchored_of_parse h, wellFormed_of_parse hproper h⟩
  -- From tree to text and back.
  · intro p hwf hfit
    obtain ⟨hsymbols, hreadable⟩ := map_symbol_unparse hwf fun d hd => Or.inl (hfit d hd)
    exact parse_of_symbols hreadable hwf hsymbols

/-- Both directions for the sum. -/
theorem parse_tree_faithful_sum :
    (List.Forall₂ Token.Agrees (unparse sumProgram) sumTokens ∧ sumProgram.Anchored sumTokens ∧
      sumProgram.WellFormed) ∧
    ∃ p', parse (unparse sumProgram) = .ok p' ∧ p'.outline = sumProgram.outline := by
  have hfaithful := parse_tree_faithful.1 _ _ _ tokenize_sumSource parse_sumTokens
  have hscales : sumProgram.ScalesFit := by
    intro d hd
    obtain rfl : d = ⟨150, 2⟩ := by
      simpa [sumProgram, Program.symbols, Function.symbols, Statement.symbols, Expr.symbols, Literal.symbol, commas,
        typeSymbols, ident, mark] using hd
    decide
  exact ⟨hfaithful, parse_tree_faithful.2 sumProgram hfaithful.2.2 hscales⟩

end BlockLang
