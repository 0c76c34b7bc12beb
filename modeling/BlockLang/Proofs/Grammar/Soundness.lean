import BlockLang.Proofs.Grammar.Phrase

/-!
# What readers yield

Whenever a reader succeeds, the tokens that it has consumed are the written form of the phrase that it yields, the
phrase is one that the grammar can write, its ids are the ones handed out meanwhile, and its nodes stand where they
say.  There is one lemma for each reader.

## Main statements

- `symbols_of_parse`: a parsed program is written as the tokens that it was parsed from.
- `wellFormed_of_parse`, `anchored_of_parse`, `nodup_ids_of_parse`: its operators bind as the tree says, its nodes stand
  where they say, and each of them has an id of its own.
-/

namespace BlockLang

open BlockLang.Symbol

/-! ## §1 Operands -/

namespace Phrase

variable {s t u : ReaderState}

theorem Read.mono {l m : Nat} (hle : l ≤ m) {e : Expr} (h : (tight m).Read e s t) :
    (tight l).Read e s t :=
  ⟨h.passes, fun hs => ⟨(h.wellFormed hs).1, hle.trans (h.wellFormed hs).2⟩, h.anchored⟩

theorem Read.binary {left right : Expr} {op : Operator}
    (hleft : (tight op.level).Read left s t) (hop : t.operator? = some op)
    (hright : (tight (op.level + 1)).Read right t.advance u) :
    (tight op.level).Read (.binary ⟨u.nextId, left.offset⟩ op left right) s
      { u with nextId := u.nextId + 1 } := by
  have hmark := ReaderState.passes_mark (ReaderState.peek_of_operator? hop) op.symbol_mem_marks
  have hbefore := hleft.passes.trans hmark
  have hpass := (hbefore.trans hright.passes).trans ReaderState.Passes.of_freshId
  -- The new node begins where its left operand does and gets the id handed out last.
  refine ⟨?_, fun hs => ?_, hleft.anchored.startsAt, hleft.anchored, ?_⟩
  · simpa [tight, Expr.symbols, Expr.ids] using hpass
  · obtain ⟨hl, hlevel⟩ := hleft.wellFormed hs
    obtain ⟨hr, hlevel'⟩ := hright.wellFormed (hbefore.proper hs)
    exact ⟨⟨hlevel, hlevel', hl, hr⟩, le_rfl⟩
  · have hrest : s.rest.drop (left.symbols.length + 1) = t.advance.rest := by
      simpa [tight] using hbefore.drop_eq
    rw [hrest]
    exact hright.anchored

end Phrase

namespace Reader

open Phrase Stateful

variable {s t u : ReaderState}

/-- Whatever a chain of operands adds to the part already read is read from the same place on. -/
theorem read_of_chain {level : Nat} {operand : Reader Expr} (hoperand : (tight (level + 1)).ReadBy operand)
    {n : Nat} {left e : Expr} (hleft : (tight level).Read left s t)
    (h : chain level operand n left t = .ok e u) : (tight level).Read e s u := by
  -- What carries the induction: the left operand so far is a tree of this level, read from `s` on.
  induction n generalizing left t with
  | zero =>
    simp only [chain, pure_apply, EStateM.Result.ok.injEq] at h
    obtain ⟨rfl, rfl⟩ := h
    exact hleft
  | succ n ih =>
    rw [chain, bind_eq_ok] at h
    obtain ⟨found, t', hfound, h⟩ := h
    rw [operator?_apply] at hfound
    -- Either the next token is no operator of this level, or one more operand is read.
    split at hfound
    · rename_i op hop
      split_ifs at hfound with hlevel
      · obtain ⟨rfl, rfl⟩ := EStateM.Result.ok.inj hfound
        simp only [bind_eq_ok] at h
        obtain ⟨right, m, hright, id, m', hid, h⟩ := h
        obtain ⟨rfl, rfl⟩ := EStateM.Result.ok.inj hid
        subst hlevel
        have hmark := ReaderState.passes_mark (ReaderState.peek_of_operator? hop) op.symbol_mem_marks
        have hread := hoperand _ _ _ hright
        exact ih (Read.binary hleft hop hread) h
      · obtain ⟨rfl, rfl⟩ := EStateM.Result.ok.inj hfound
        simp only [pure_apply, EStateM.Result.ok.injEq] at h
        obtain ⟨rfl, rfl⟩ := h
        exact hleft
    · obtain ⟨rfl, rfl⟩ := EStateM.Result.ok.inj hfound
      simp only [pure_apply, EStateM.Result.ok.injEq] at h
      obtain ⟨rfl, rfl⟩ := h
      exact hleft

theorem readBy_operands {level : Nat} {operand : Reader Expr} (hoperand : (tight (level + 1)).ReadBy operand)
    (n : Nat) : (tight level).ReadBy (operands level operand n) := by
  intro s e t h
  rw [operands, bind_eq_ok] at h
  obtain ⟨left, m, hleft, h⟩ := h
  exact read_of_chain hoperand ((hoperand _ _ _ hleft).mono (Nat.le_succ level)) h

/-! ## §2 Primary expressions -/

/-- Only three constants are reserved words, and no token of a literal denotes them. -/
theorem symbol_of_literalOf? {tok : Token} {value : Literal} (h : literalOf? tok = some value) :
    value.symbol = tok.symbol := by
  have hsymbol : value.symbol = .literal value := by
    unfold literalOf? at h
    split at h
    · obtain ⟨z, -, rfl⟩ := Option.map_eq_some_iff.mp h
      rfl
    · obtain ⟨d, -, rfl⟩ := Option.map_eq_some_iff.mp h
      rfl
    · split at h
      · obtain rfl := Option.some.inj h
        rfl
      · simp at h
    · obtain rfl := Option.some.inj h
      rfl
    · simp at h
    · simp at h
  rw [hsymbol, Token.symbol, h]

theorem keyword_of_constantOf? {word : String} {value : Literal} (h : constantOf? word = some value) :
    word ∈ keywords ∧ value.symbol = ident word := by
  unfold constantOf? at h
  split_ifs at h with hnil htrue hfalse
  · obtain rfl := Option.some.inj h
    exact ⟨by rw [hnil]; decide, by rw [hnil]; rfl⟩
  · obtain rfl := Option.some.inj h
    exact ⟨by rw [htrue]; decide, by rw [htrue]; rfl⟩
  · obtain rfl := Option.some.inj h
    exact ⟨by rw [hfalse]; decide, by rw [hfalse]; rfl⟩

theorem read_of_literal {tok : Token} {value : Literal} {e : Expr} (hcurrent : s.current = some tok)
    (hsymbol : tok.Proper → tok.symbol = value.symbol) (h : literal tok.offset value s = .ok e t) :
    (tight 5).Read e s t := by
  simp only [literal, advance_bind, freshId_bind, pure_apply, EStateM.Result.ok.injEq] at h
  obtain ⟨rfl, rfl⟩ := h
  have hpass := (ReaderState.Passes.of_current hcurrent hsymbol).trans ReaderState.Passes.of_freshId
  refine ⟨by simpa [tight, Expr.symbols, Expr.ids] using hpass, fun _ => ⟨trivial, le_rfl⟩, ?_⟩
  simpa [tight, Expr.Anchored, ReaderState.offset, hcurrent] using hpass.startsAt (by simp)

theorem read_of_parenthesized {expression : Reader Expr} (hexpression : Phrase.expression.ReadBy expression)
    {e : Expr} (hopen : s.peek "(" = true) (h : parenthesized expression s.offset s = .ok e t) :
    (tight 5).Read e s t := by
  simp only [parenthesized, advance_bind, freshId_bind, pure_apply, bind_eq_ok, expect_eq_ok,
    EStateM.Result.ok.injEq] at h
  obtain ⟨inner, m, hinner, -, m', ⟨hclose, rfl⟩, rfl, rfl⟩ := h
  have hmark := ReaderState.passes_mark hopen (by decide)
  have hread := hexpression _ _ _ hinner
  have hend := ReaderState.passes_mark hclose (by decide)
  have hpass := ((hmark.trans hread.passes).trans hend).trans ReaderState.Passes.of_freshId
  refine ⟨by simpa [tight, Phrase.expression, Expr.symbols, Expr.ids] using hpass,
    fun hs => ⟨hread.wellFormed (hmark.proper hs), le_rfl⟩, hmark.startsAt (by simp), ?_⟩
  have hrest : s.rest.drop 1 = s.advance.rest := hmark.drop_eq
  rw [hrest]
  exact hread.anchored

theorem read_of_named {expression : Reader Expr} (hexpression : Phrase.expression.ReadBy expression) {n : Nat}
    {e : Expr} (h : named expression n s = .ok e t) : (tight 5).Read e s t := by
  rw [named, offset_bind, bind_eq_ok] at h
  obtain ⟨x, m, hx, h⟩ := h
  obtain ⟨hname, hisName⟩ := passes_of_identifier hx
  have hstart := hname.startsAt (by simp)
  rw [eat_bind] at h
  -- A call, an element or a plain variable, as the next token is a parenthesis, a bracket or neither.
  split at h
  · rename_i hopen
    simp only [if_true, bind_eq_ok, freshId_bind, pure_apply, EStateM.Result.ok.injEq] at h
    obtain ⟨arguments, k, harguments, rfl, rfl⟩ := h
    have hmark := ReaderState.passes_mark hopen (by decide)
    have hbefore := hname.trans hmark
    obtain ⟨k', hread, hend⟩ := read_of_commaSeparated hexpression (by decide) harguments
    have hpass := ((hbefore.trans hread.passes).trans hend).trans ReaderState.Passes.of_freshId
    refine ⟨?_, fun hs => ?_, hstart, ?_⟩
    · simpa [tight, Phrase.expression, commaList, Expr.symbols, Expr.ids] using hpass
    · exact ⟨⟨hisName hs, (Expr.allWellFormed_iff _).mpr (hread.wellFormed (hbefore.proper hs))⟩, le_rfl⟩
    · have hrest : s.rest.drop 2 = m.advance.rest := hbefore.drop_eq
      rw [hrest, Expr.allAnchored_iff]
      exact hread.anchored
  · simp only [Bool.false_eq_true, if_false, eat_bind] at h
    split at h
    · rename_i hopen
      simp only [if_true, bind_eq_ok, expect_eq_ok, freshId_bind, pure_apply, EStateM.Result.ok.injEq] at h
      obtain ⟨index, k, hindex, -, k', ⟨hclose, rfl⟩, rfl, rfl⟩ := h
      have hmark := ReaderState.passes_mark hopen (by decide)
      have hbefore := hname.trans hmark
      have hread := hexpression _ _ _ hindex
      have hend := ReaderState.passes_mark hclose (by decide)
      have hpass := ((hbefore.trans hread.passes).trans hend).trans ReaderState.Passes.of_freshId
      refine ⟨?_, fun hs => ⟨⟨hisName hs, hread.wellFormed (hbefore.proper hs)⟩, le_rfl⟩, hstart, ?_⟩
      · simpa [tight, Phrase.expression, Expr.symbols, Expr.ids] using hpass
      · have hrest : s.rest.drop 2 = m.advance.rest := hbefore.drop_eq
        rw [hrest]
        exact hread.anchored
    · simp only [freshId_bind, pure_apply, EStateM.Result.ok.injEq] at h
      obtain ⟨rfl, rfl⟩ := h
      have hpass := hname.trans ReaderState.Passes.of_freshId
      exact ⟨by simpa [tight, Expr.symbols, Expr.ids] using hpass, fun hs => ⟨hisName hs, le_rfl⟩, hstart⟩

/-- A token of a literal is read as the literal. -/
theorem read_of_literalOf? {tok : Token} {e : Expr} (hcurrent : s.current = some tok)
    (h : (match literalOf? tok with
      | some value => literal tok.offset value
      | none => throw (GrammarError.invalidLiteral tok.text tok.offset) : Reader Expr) s = .ok e t) :
    (tight 5).Read e s t := by
  cases hvalue : literalOf? tok with
  | none => simp [hvalue] at h
  | some value =>
    rw [hvalue] at h
    exact read_of_literal hcurrent (fun _ => (symbol_of_literalOf? hvalue).symm) h

theorem readBy_primary {expression : Reader Expr} (hexpression : Phrase.expression.ReadBy expression) (n : Nat) :
    (tight 5).ReadBy (primary expression n) := by
  intro s e t h
  rw [primary, get_bind] at h
  cases hcurrent : s.current with
  | none => simp [hcurrent] at h
  | some tok =>
    -- The kind of the next token decides: a word, a parenthesis or a literal.
    cases hkind : tok.kind with
    | identifier =>
      simp only [hcurrent, hkind] at h
      cases hvalue : constantOf? tok.text with
      | some value =>
        obtain ⟨hword, hsymbol⟩ := keyword_of_constantOf? hvalue
        rw [hvalue] at h
        exact read_of_literal hcurrent (fun htok => (htok.readable.symbol_of_mem_keywords hword).trans hsymbol.symm) h
      | none =>
        simp only [hvalue] at h
        split_ifs at h
        · simp at h
        · exact read_of_named hexpression h
    | operator =>
      simp only [hcurrent, hkind] at h
      split_ifs at h with hopen
      · have hoffset : tok.offset = s.offset := by simp [ReaderState.offset, hcurrent]
        rw [hoffset] at h
        exact read_of_parenthesized hexpression (ReaderState.peek_iff.mpr ⟨tok, hcurrent, hopen⟩) h
      · simp at h
    | integer | decimal | character | string =>
      simp only [hcurrent, hkind] at h
      exact read_of_literalOf? hcurrent h

/-! ## §3 Expressions -/

section Levels

variable {expression : Reader Expr}

theorem readBy_multiplicative (h : Phrase.expression.ReadBy expression) (n : Nat) :
    (tight 4).ReadBy (multiplicative expression n) :=
  readBy_operands (readBy_primary h n) n

theorem readBy_additive (h : Phrase.expression.ReadBy expression) (n : Nat) :
    (tight 3).ReadBy (additive expression n) :=
  readBy_operands (readBy_multiplicative h n) n

theorem readBy_comparison (h : Phrase.expression.ReadBy expression) (n : Nat) :
    (tight 2).ReadBy (comparison expression n) :=
  readBy_operands (readBy_additive h n) n

theorem readBy_logical (h : Phrase.expression.ReadBy expression) (n : Nat) :
    (tight 1).ReadBy (logical expression n) :=
  readBy_operands (readBy_comparison h n) n

end Levels

theorem readBy_expressionWithin (n : Nat) : Phrase.expression.ReadBy (expressionWithin n) := by
  -- The bound is only used up; with none left, nothing is read at all.
  induction n with
  | zero =>
    intro s e t h
    simp [expressionWithin] at h
  | succ n ih =>
    intro s e t h
    have hread := readBy_logical ih n s e t h
    exact ⟨hread.passes, fun hs => (hread.wellFormed hs).1, hread.anchored⟩

/-! ## §4 Types, initial values and blocks -/

theorem passes_of_typeName? {type : Option String} (h : typeName? s = .ok type t) :
    s.Passes (typeSymbols type) [] t ∧ (s.Proper → ∀ x ∈ type, IsName x) := by
  rw [typeName?, eat_bind] at h
  split at h
  · rename_i hcolon
    simp only [if_true, bind_eq_ok, pure_apply, EStateM.Result.ok.injEq] at h
    obtain ⟨x, m, hx, rfl, rfl⟩ := h
    have hmark := ReaderState.passes_mark hcolon (by decide)
    obtain ⟨hname, hisName⟩ := passes_of_identifier hx
    exact ⟨hmark.trans hname, fun hs => by simpa using hisName (hmark.proper hs)⟩
  · simp only [Bool.false_eq_true, if_false, pure_apply, EStateM.Result.ok.injEq] at h
    obtain ⟨rfl, rfl⟩ := h
    exact ⟨ReaderState.Passes.refl s, fun _ => by simp⟩

theorem readBy_initializer? {expression : Reader Expr} (hexpression : Phrase.expression.ReadBy expression) :
    initialValue.ReadBy (initializer? expression) := by
  intro s value t h
  rw [initializer?, eat_bind] at h
  split at h
  · rename_i hequals
    simp only [if_true, bind_eq_ok, pure_apply, EStateM.Result.ok.injEq] at h
    obtain ⟨e, m, he, rfl, rfl⟩ := h
    have hmark := ReaderState.passes_mark hequals (by decide)
    have hread := hexpression _ _ _ he
    refine ⟨hmark.trans hread.passes, fun hs => ?_, ?_⟩
    · have hwf : e.WellFormed := hread.wellFormed (hmark.proper hs)
      simpa [initialValue] using hwf
    have hrest : s.rest.drop 1 = s.advance.rest := hmark.drop_eq
    change Expr.Anchored e (s.rest.drop 1)
    rw [hrest]
    exact hread.anchored
  · simp only [Bool.false_eq_true, if_false, pure_apply, EStateM.Result.ok.injEq] at h
    obtain ⟨rfl, rfl⟩ := h
    exact ⟨ReaderState.Passes.refl s, fun _ => by simp [initialValue], trivial⟩

section Statements

variable {expression : Reader Expr} {statement : Reader Statement} {terminators : List String} {n : Nat}

theorem read_of_statements (hstatement : Phrase.statement.ReadBy statement) {body : List Statement}
    (h : statements statement terminators n s = .ok body t) : Phrase.statement.row.Read body s t := by
  induction n generalizing s body with
  | zero => simp [statements] at h
  | succ n ih =>
    rw [statements, get_bind] at h
    -- A terminator ends the block, the end of the text is an error, and else one more statement is read.
    split_ifs at h
    · simp only [pure_apply, EStateM.Result.ok.injEq] at h
      obtain ⟨rfl, rfl⟩ := h
      exact Read.nil_row
    · simp at h
    · simp only [bind_eq_ok, pure_apply, EStateM.Result.ok.injEq] at h
      obtain ⟨first, m, hfirst, rest, t', hrest, rfl, rfl⟩ := h
      have hread := hstatement _ _ _ hfirst
      exact Read.cons_row hread (ih hrest)

theorem read_of_block (hstatement : Phrase.statement.ReadBy statement) {body : List Statement}
    (h : block statement terminators n s = .ok body t) : body ≠ [] ∧ Phrase.statement.row.Read body s t := by
  rw [block, bind_eq_ok] at h
  obtain ⟨found, m, hfound, h⟩ := h
  split_ifs at h with hempty
  · simp at h
  · simp only [pure_apply, EStateM.Result.ok.injEq] at h
    obtain ⟨rfl, rfl⟩ := h
    exact ⟨by simpa using hempty, read_of_statements hstatement hfound⟩

/-! ## §5 Statements -/

theorem read_of_declaration (hexpression : Phrase.expression.ReadBy expression) {x : Statement}
    (hword : s.peek "LET" = true) (h : declaration expression s.offset s.advance = .ok x t) :
    Phrase.statement.Read x s t := by
  simp only [declaration, freshId_bind, pure_apply, bind_eq_ok, expect_eq_ok, EStateM.Result.ok.injEq] at h
  obtain ⟨name, m₁, hname, type, m₂, htype, value, m₃, hvalue, -, m₄, ⟨hclose, rfl⟩, rfl, rfl⟩ := h
  -- The parts are passed one after the other; each place is reached by what was passed before it.
  have hlet := (ReaderState.passes_word hword (by decide)).trans ReaderState.Passes.of_freshId
  obtain ⟨hpname, hisName⟩ := passes_of_identifier hname
  have hb₁ := hlet.trans hpname
  obtain ⟨hptype, htypes⟩ := passes_of_typeName? htype
  have hb₂ := hb₁.trans hptype
  have hread := readBy_initializer? hexpression _ _ _ hvalue
  have hb₃ := hb₂.trans hread.passes
  have hpass := hb₃.trans (ReaderState.passes_mark hclose (by decide))
  refine ⟨?_, fun hs => ?_, hpass.startsAt (by simp), ?_⟩
  · simpa [Phrase.statement, initialValue, Statement.symbols, Statement.ids] using hpass
  · exact ⟨hisName (hlet.proper hs), htypes (hb₁.proper hs), hread.wellFormed (hb₂.proper hs)⟩
  · rw [hb₂.drop_eq_of (by simp; omega)]
    exact hread.anchored

theorem read_of_returned (hexpression : Phrase.expression.ReadBy expression) {x : Statement}
    (hword : s.peek "RETURN" = true) (h : returned expression s.offset s.advance = .ok x t) :
    Phrase.statement.Read x s t := by
  simp only [returned, pure_apply, bind_eq_ok, expect_eq_ok, EStateM.Result.ok.injEq] at h
  obtain ⟨value, m, hvalue, -, m', ⟨hclose, rfl⟩, rfl, rfl⟩ := h
  have hreturn := ReaderState.passes_word hword (by decide)
  have hread := hexpression _ _ _ hvalue
  have hb := hreturn.trans hread.passes
  have hpass := hb.trans (ReaderState.passes_mark hclose (by decide))
  refine ⟨?_, fun hs => hread.wellFormed (hreturn.proper hs), hpass.startsAt (by simp), ?_⟩
  · simpa [Phrase.statement, Phrase.expression, Statement.symbols, Statement.ids] using hpass
  · rw [hreturn.drop_eq_of (by simp)]
    exact hread.anchored

theorem read_of_effect (hexpression : Phrase.expression.ReadBy expression) {x : Statement}
    (h : effect expression s.offset s = .ok x t) : Phrase.statement.Read x s t := by
  rw [effect, bind_eq_ok] at h
  obtain ⟨value, m, hvalue, h⟩ := h
  have hread := hexpression _ _ _ hvalue
  have hstart := hread.anchored.startsAt
  rw [eat_bind] at h
  -- With an equals sign the expression was the receiver of an assignment.
  split at h
  · rename_i hequals
    simp only [if_true, pure_apply, bind_eq_ok, expect_eq_ok, EStateM.Result.ok.injEq] at h
    obtain ⟨stored, k, hstored, -, k', ⟨hclose, rfl⟩, rfl, rfl⟩ := h
    have hb := hread.passes.trans (ReaderState.passes_mark hequals (by decide))
    have hread' := hexpression _ _ _ hstored
    have hb' := hb.trans hread'.passes
    have hpass := hb'.trans (ReaderState.passes_mark hclose (by decide))
    refine ⟨?_, fun hs => ⟨hread.wellFormed hs, hread'.wellFormed (hb.proper hs)⟩, hpass.startsAt (by simp),
      hread.anchored, ?_⟩
    · simpa [Phrase.statement, Phrase.expression, Statement.symbols, Statement.ids] using hpass
    · rw [hb.drop_eq_of (by simp [Phrase.expression])]
      exact hread'.anchored
  · simp only [Bool.false_eq_true, if_false, pure_apply, bind_eq_ok, expect_eq_ok, EStateM.Result.ok.injEq] at h
    obtain ⟨-, k, ⟨hclose, rfl⟩, rfl, rfl⟩ := h
    have hpass := hread.passes.trans (ReaderState.passes_mark hclose (by decide))
    refine ⟨?_, hread.wellFormed, hpass.startsAt (by simp), hread.anchored⟩
    simpa [Phrase.statement, Phrase.expression, Statement.symbols, Statement.ids] using hpass

theorem read_of_loop (hexpression : Phrase.expression.ReadBy expression)
    (hstatement : Phrase.statement.ReadBy statement) {x : Statement} (hword : s.peek "WHILE" = true)
    (h : loop expression statement n s.offset s.advance = .ok x t) : Phrase.statement.Read x s t := by
  simp only [loop, pure_apply, bind_eq_ok, expect_eq_ok, EStateM.Result.ok.injEq] at h
  obtain ⟨condition, m₁, hcondition, -, m₂, ⟨hdo, rfl⟩, body, m₃, hbody, -, m₄, ⟨hend, rfl⟩, rfl, rfl⟩ := h
  have hwhile := ReaderState.passes_word hword (by decide)
  have hread := hexpression _ _ _ hcondition
  have hb₁ := hwhile.trans hread.passes
  have hb₂ := hb₁.trans (ReaderState.passes_word hdo (by decide))
  obtain ⟨hne, hread'⟩ := read_of_block hstatement hbody
  have hb₃ := hb₂.trans hread'.passes
  have hpass := hb₃.trans (ReaderState.passes_word hend (by decide))
  refine ⟨?_, fun hs => ?_, hpass.startsAt (by simp), ?_, ?_⟩
  · simpa [Phrase.statement, Phrase.expression, row, Statement.symbols, Statement.ids] using hpass
  · exact ⟨hread.wellFormed (hwhile.proper hs), hne, (allWellFormed_iff _).mpr (hread'.wellFormed (hb₂.proper hs))⟩
  · rw [hwhile.drop_eq_of (by simp)]
    exact hread.anchored
  · rw [hb₂.drop_eq_of (by simp [Phrase.expression]), blockAnchored_iff]
    exact hread'.anchored

theorem read_of_conditional (hexpression : Phrase.expression.ReadBy expression)
    (hstatement : Phrase.statement.ReadBy statement) {x : Statement} (hword : s.peek "IF" = true)
    (h : conditional expression statement n s.offset s.advance = .ok x t) : Phrase.statement.Read x s t := by
  simp only [conditional, bind_eq_ok, expect_eq_ok] at h
  obtain ⟨condition, m₁, hcondition, -, m₂, ⟨hdo, rfl⟩, onTrue, m₃, htrue, h⟩ := h
  have hif := ReaderState.passes_word hword (by decide)
  have hread := hexpression _ _ _ hcondition
  have hb₁ := hif.trans hread.passes
  have hb₂ := hb₁.trans (ReaderState.passes_word hdo (by decide))
  obtain ⟨hne, hread'⟩ := read_of_block hstatement htrue
  have hb₃ := hb₂.trans hread'.passes
  obtain ⟨found, m₄, hfound, h⟩ := h
  rw [eat_apply] at hfound
  -- An absent branch is the empty list of statements, and nothing is written for it.
  split_ifs at hfound with helse
  · obtain ⟨rfl, rfl⟩ := EStateM.Result.ok.inj hfound
    simp only [if_true, pure_apply, bind_eq_ok, EStateM.Result.ok.injEq, expect_eq_ok] at h
    obtain ⟨onFalse, m₅, hfalse, -, m₆, ⟨hend, rfl⟩, rfl, rfl⟩ := h
    have hb₄ := hb₃.trans (ReaderState.passes_word helse (by decide))
    obtain ⟨hne', hread''⟩ := read_of_block hstatement hfalse
    have hb₅ := hb₄.trans hread''.passes
    have hpass := hb₅.trans (ReaderState.passes_word hend (by decide))
    refine ⟨?_, fun hs => ?_, hpass.startsAt (by simp), ?_, ?_, ?_⟩
    · simpa [Phrase.statement, Phrase.expression, row, Statement.symbols, Statement.ids, hne'] using hpass
    · exact ⟨hread.wellFormed (hif.proper hs), hne, (allWellFormed_iff _).mpr (hread'.wellFormed (hb₂.proper hs)),
        (allWellFormed_iff _).mpr (hread''.wellFormed (hb₄.proper hs))⟩
    · rw [hif.drop_eq_of (by simp)]
      exact hread.anchored
    · rw [hb₂.drop_eq_of (by simp [Phrase.expression]), blockAnchored_iff]
      exact hread'.anchored
    · rw [hb₄.drop_eq_of (by simp [Phrase.expression, Phrase.statement, row]; omega), blockAnchored_iff]
      exact hread''.anchored
  · obtain ⟨rfl, rfl⟩ := EStateM.Result.ok.inj hfound
    simp only [Bool.false_eq_true, if_false, pure_apply, bind_eq_ok, EStateM.Result.ok.injEq, expect_eq_ok] at h
    obtain ⟨onFalse, m₅, ⟨rfl, rfl⟩, -, m₆, ⟨hend, rfl⟩, rfl, rfl⟩ := h
    have hpass := hb₃.trans (ReaderState.passes_word hend (by decide))
    refine ⟨?_, fun hs => ?_, hpass.startsAt (by simp), ?_, ?_, trivial⟩
    · simpa [Phrase.statement, Phrase.expression, row, Statement.symbols, Statement.ids] using hpass
    · exact ⟨hread.wellFormed (hif.proper hs), hne, (allWellFormed_iff _).mpr (hread'.wellFormed (hb₂.proper hs)),
        trivial⟩
    · rw [hif.drop_eq_of (by simp)]
      exact hread.anchored
    · rw [hb₂.drop_eq_of (by simp [Phrase.expression]), blockAnchored_iff]
      exact hread'.anchored

theorem read_of_valueCase (hexpression : Phrase.expression.ReadBy expression)
    (hstatement : Phrase.statement.ReadBy statement) {arm : Case} (hword : s.peek "CASE" = true)
    (h : valueCase expression statement n s = .ok arm t) : Phrase.valueCase.Read arm s t := by
  simp only [valueCase, offset_bind, advance_bind, pure_apply, bind_eq_ok, expect_eq_ok,
    EStateM.Result.ok.injEq] at h
  obtain ⟨value, m₁, hvalue, -, m₂, ⟨hcolon, rfl⟩, body, m₃, hbody, rfl, rfl⟩ := h
  have hcase := ReaderState.passes_word hword (by decide)
  have hread := hexpression _ _ _ hvalue
  have hb₁ := hcase.trans hread.passes
  have hb₂ := hb₁.trans (ReaderState.passes_mark hcolon (by decide))
  obtain ⟨hne, hread'⟩ := read_of_block hstatement hbody
  have hpass := hb₂.trans hread'.passes
  refine ⟨?_, fun hs => ?_, hpass.startsAt (by simp), ?_, ?_⟩
  · simpa [Phrase.valueCase, Phrase.expression, Phrase.statement, row, Case.symbols, Case.ids, Expr.optionIds]
      using hpass
  · have hwf : value.WellFormed := hread.wellFormed (hcase.proper hs)
    have hbody := (allWellFormed_iff _).mpr (hread'.wellFormed (hb₂.proper hs))
    exact ⟨⟨by simpa using hwf, hne, hbody⟩, by simp [Case.value]⟩
  · rw [hcase.drop_eq_of (by simp)]
    exact hread.anchored
  · rw [hb₂.drop_eq_of (by simp [Phrase.expression]), blockAnchored_iff]
    exact hread'.anchored

theorem read_of_switch (hexpression : Phrase.expression.ReadBy expression)
    (hstatement : Phrase.statement.ReadBy statement) {x : Statement} (hword : s.peek "SWITCH" = true)
    (h : switch expression statement n s.offset s.advance = .ok x t) : Phrase.statement.Read x s t := by
  simp only [switch, offset_bind, pure_apply, bind_eq_ok, expect_eq_ok, EStateM.Result.ok.injEq] at h
  obtain ⟨condition, m₁, hcondition, cases, m₂, hcases, -, m₃, ⟨hdefault, rfl⟩, body, m₄, hbody, -, m₅, ⟨hend, rfl⟩,
    rfl, rfl⟩ := h
  have hswitch := ReaderState.passes_word hword (by decide)
  have hread := hexpression _ _ _ hcondition
  have hb₁ := hswitch.trans hread.passes
  have harms := read_of_many (fun s arm t hmore h => read_of_valueCase hexpression hstatement hmore h)
    hcases
  have hb₂ := hb₁.trans harms.passes
  have hword' := ReaderState.passes_word hdefault (by decide)
  obtain ⟨hne, hread'⟩ := read_of_block hstatement hbody
  have hb₃ := (hb₂.trans hword').trans hread'.passes
  have hpass := hb₃.trans (ReaderState.passes_word hend (by decide))
  refine ⟨?_, fun hs => ⟨hread.wellFormed (hswitch.proper hs), ?_⟩, hpass.startsAt (by simp), ?_, ?_⟩
  · simpa [Phrase.statement, Phrase.expression, Phrase.valueCase, row, Statement.symbols, Statement.ids, Case.symbols,
      Case.ids, Expr.optionIds] using hpass
  · exact (armsWellFormed_iff _).mpr ⟨_, _, _, rfl, hne, hread'.wellFormed ((hb₂.trans hword').proper hs),
      harms.wellFormed (hb₁.proper hs)⟩
  · rw [hswitch.drop_eq_of (by simp)]
    exact hread.anchored
  · -- The default arm stands after the arms with values.
    rw [hb₁.drop_eq_of (by simp [Phrase.expression]), armsAnchored_iff, inRowAnchored_append]
    refine ⟨harms.anchored, ⟨?_, ?_⟩, trivial⟩
    · have hrest := harms.passes.drop_eq
      rw [show (List.flatMap Case.symbols cases).length = (Phrase.valueCase.row.symbols cases).length from rfl, hrest]
      exact hword'.startsAt (by simp)
    · rw [blockAnchored_iff]
      have hrest := (harms.passes.trans hword').drop_eq
      rw [List.length_append, List.length_singleton, ← List.drop_drop] at hrest
      exact hrest ▸ hread'.anchored

/-- A word that is eaten decides which reader goes on. -/
theorem readBy_statementOf (hexpression : Phrase.expression.ReadBy expression)
    (hstatement : Phrase.statement.ReadBy statement) (n : Nat) :
    Phrase.statement.ReadBy (statementOf expression statement n) := by
  intro s x t h
  rw [statementOf, offset_bind, eat_choice] at h
  split at h
  · rename_i hword
    exact read_of_declaration hexpression hword h
  rw [eat_choice] at h
  split at h
  · rename_i hword
    exact read_of_switch hexpression hstatement hword h
  rw [eat_choice] at h
  split at h
  · rename_i hword
    exact read_of_conditional hexpression hstatement hword h
  rw [eat_choice] at h
  split at h
  · rename_i hword
    exact read_of_loop hexpression hstatement hword h
  rw [eat_choice] at h
  split at h
  · rename_i hword
    exact read_of_returned hexpression hword h
  · exact read_of_effect hexpression h

end Statements

theorem readBy_statementWithin (n : Nat) : Phrase.statement.ReadBy (statementWithin n) := by
  induction n with
  | zero =>
    intro s x t h
    simp [statementWithin] at h
  | succ n ih => exact readBy_statementOf (readBy_expressionWithin n) ih n

/-! ## §6 Globals -/

section Globals

variable {expression : Reader Expr} {n : Nat} {node : Node} {g : Global}

theorem read_of_listLiteral (hexpression : Phrase.expression.ReadBy expression) {e : Expr}
    (h : listLiteral expression n s = .ok e t) : ∃ node first more, e = .list node (first :: more) ∧
      writtenList.Read e s t := by
  simp only [listLiteral, offset_bind, freshId_bind, bind_eq_ok, expect_eq_ok, pure_apply,
    EStateM.Result.ok.injEq] at h
  obtain ⟨-, m₁, ⟨hopen, rfl⟩, first, m₂, hfirst, more, m₃, hmore, -, m₄, ⟨hclose, rfl⟩, rfl, rfl⟩ := h
  have hmark := ReaderState.passes_mark hopen (by decide)
  have hb₁ := ReaderState.Passes.of_freshId.trans hmark
  have hread := hexpression _ _ _ hfirst
  have hlater : Phrase.expression.afterComma.row.Read more m₂ m₃ := by
    refine read_of_many (fun s e t hcomma h => ?_) hmore
    exact Read.afterComma hcomma (hexpression _ _ _ h)
  have hlist := Read.commaList hread hlater
  have hpass := (hb₁.trans hlist.passes).trans (ReaderState.passes_mark hclose (by decide))
  refine ⟨_, first, more, rfl, ?_, fun hs => ?_, hpass.startsAt (by simp), ?_⟩
  · simpa [writtenList, Phrase.expression, commaList, Expr.symbols, Expr.ids] using hpass
  · exact ⟨List.cons_ne_nil _ _, (Expr.allWellFormed_iff _).mpr (hlist.wellFormed (hb₁.proper hs))⟩
  · rw [hb₁.drop_eq_of (by simp), Expr.allAnchored_iff]
    exact hlist.anchored

/-- A global up to its semicolon has been read if its parts have been read one after the other. -/
theorem Read.openGlobal {m₁ m₂ m₃ : ReaderState} (hnode : g.node = ⟨s.nextId, s.offset⟩)
    (hword : s.Passes [ident g.keyword] [s.nextId] m₁) (hname : m₁.Passes [ident g.name] [] m₂)
    (htype : m₂.Passes (typeSymbols g.type) [] m₃)
    (hvalue : m₃.Passes (valueSymbols g.value) (Expr.optionIds g.value) t)
    (hanchored : Expr.OptionAnchored g.value m₃.rest) (hwf : s.Proper → g.WellFormed) :
    Phrase.openGlobal.Read g s t := by
  have hb := (hword.trans hname).trans htype
  refine ⟨?_, hwf, ?_, ?_⟩
  · simpa [Phrase.openGlobal, Global.ids, hnode] using hb.trans hvalue
  · rw [hnode]
    exact hword.startsAt (by simp)
  · rw [hb.drop_eq_of (by simp; omega)]
    exact hanchored

theorem read_of_listGlobal (hexpression : Phrase.expression.ReadBy expression)
    (hword : s.Passes [ident "LIST"] [s.nextId] t)
    (h : listGlobal expression n ⟨s.nextId, s.offset⟩ t = .ok g u) : Phrase.openGlobal.Read g s u := by
  simp only [listGlobal, bind_eq_ok, expect_eq_ok, pure_apply, EStateM.Result.ok.injEq] at h
  obtain ⟨name, m₁, hname, -, m₂, ⟨hcolon, rfl⟩, type, m₃, htype, -, m₄, ⟨hequals, rfl⟩, e, m₅, he, rfl, rfl⟩ := h
  obtain ⟨hpname, hisName⟩ := passes_of_identifier hname
  obtain ⟨hptype, hisType⟩ := passes_of_identifier htype
  obtain ⟨node, first, more, rfl, hlist⟩ := read_of_listLiteral hexpression he
  have hcolon := ReaderState.passes_mark hcolon (by decide)
  have hequals := ReaderState.passes_mark hequals (by decide)
  have hb := (hword.trans hpname).trans hcolon
  -- A list has to have a type and at least one element.
  refine Read.openGlobal rfl hword hpname (hcolon.trans hptype) (hequals.trans hlist.passes) ?_ fun hs => ?_
  · have hrest : m₃.rest.drop 1 = m₃.advance.rest := hequals.drop_eq
    change Expr.Anchored (.list node (first :: more)) (m₃.rest.drop 1)
    rw [hrest]
    exact hlist.anchored
  · have hproper := (hb.trans hptype).proper hs
    obtain ⟨hne, hall⟩ := hlist.wellFormed (hequals.proper hproper)
    exact ⟨hisName (hword.proper hs), by simpa using hisType (hb.proper hs), rfl, by simp, hne, hall⟩

/-- The value of a global that is read as an expression is no list. -/
theorem valueWellFormed_of_expression {e : Expr} (hvalue : g.value = some e) (he : e.WellFormed) :
    g.ValueWellFormed ∧ g.isList = false := by
  unfold Global.ValueWellFormed Global.isList
  rw [hvalue]
  cases e with
  | list n elements => exact absurd he (by simp [Expr.WellFormed])
  | _ => exact ⟨he, rfl⟩

theorem read_of_variableGlobal (hexpression : Phrase.expression.ReadBy expression)
    (hword : s.Passes [ident "VAR"] [s.nextId] t)
    (h : variableGlobal expression ⟨s.nextId, s.offset⟩ t = .ok g u) : Phrase.openGlobal.Read g s u := by
  simp only [variableGlobal, bind_eq_ok, pure_apply, EStateM.Result.ok.injEq] at h
  obtain ⟨name, m₁, hname, type, m₂, htype, value, m₃, hvalue, rfl, rfl⟩ := h
  obtain ⟨hpname, hisName⟩ := passes_of_identifier hname
  obtain ⟨hptype, hisType⟩ := passes_of_typeName? htype
  have hread := readBy_initializer? hexpression _ _ _ hvalue
  have hb := (hword.trans hpname).trans hptype
  -- An expression is no list, so the keyword that was read is the one the tree is written with.
  have hshape : s.Proper → Global.ValueWellFormed ⟨⟨s.nextId, s.offset⟩, name, true, type, value⟩ ∧
      Global.isList ⟨⟨s.nextId, s.offset⟩, name, true, type, value⟩ = false := by
    intro hs
    cases value with
    | none => exact ⟨rfl, rfl⟩
    | some e => exact valueWellFormed_of_expression rfl (hread.wellFormed (hb.proper hs) e rfl)
  refine Read.openGlobal rfl (hword.congr rfl fun hs => ?_) hpname hptype hread.passes hread.anchored fun hs => ?_
  · simp [Global.keyword, (hshape hs).2]
  · exact ⟨hisName (hword.proper hs), hisType ((hword.trans hpname).proper hs), (hshape hs).1⟩

theorem read_of_constantGlobal (hexpression : Phrase.expression.ReadBy expression)
    (h : constantGlobal expression ⟨s.nextId, s.offset⟩ { s with nextId := s.nextId + 1 } = .ok g u) :
    Phrase.openGlobal.Read g s u := by
  simp only [constantGlobal, bind_eq_ok, expect_eq_ok, pure_apply, EStateM.Result.ok.injEq] at h
  obtain ⟨-, m₀, ⟨hval, rfl⟩, name, m₁, hname, type, m₂, htype, -, m₃, ⟨hequals, rfl⟩, e, m₄, he, rfl, rfl⟩ := h
  have hword := ReaderState.Passes.of_freshId.trans (ReaderState.passes_word hval (by decide))
  obtain ⟨hpname, hisName⟩ := passes_of_identifier hname
  obtain ⟨hptype, hisType⟩ := passes_of_typeName? htype
  have hequals := ReaderState.passes_mark hequals (by decide)
  have hread := hexpression _ _ _ he
  have hb := ((hword.trans hpname).trans hptype).trans hequals
  have hshape (hs : s.Proper) := valueWellFormed_of_expression
    (g := ⟨⟨s.nextId, s.offset⟩, name, false, type, some e⟩) rfl (hread.wellFormed (hb.proper hs))
  refine Read.openGlobal rfl (hword.congr rfl fun hs => ?_) hpname hptype (hequals.trans hread.passes) ?_ fun hs => ?_
  · simp [Global.keyword, (hshape hs).2]
  · have hrest : m₂.rest.drop 1 = m₂.advance.rest := hequals.drop_eq
    change e.Anchored (m₂.rest.drop 1)
    rw [hrest]
    exact hread.anchored
  · exact ⟨hisName (hword.proper hs), hisType ((hword.trans hpname).proper hs), (hshape hs).1⟩

theorem read_of_globalBody (hexpression : Phrase.expression.ReadBy expression)
    (h : globalBody expression n ⟨s.nextId, s.offset⟩ { s with nextId := s.nextId + 1 } = .ok g t) :
    Phrase.openGlobal.Read g s t := by
  rw [globalBody, eat_choice] at h
  split at h
  · rename_i hword
    have hpass := ReaderState.Passes.of_freshId.trans (ReaderState.passes_word hword (by decide))
    exact read_of_listGlobal hexpression hpass h
  rw [eat_choice] at h
  split at h
  · rename_i hword
    have hpass := ReaderState.Passes.of_freshId.trans (ReaderState.passes_word hword (by decide))
    exact read_of_variableGlobal hexpression hpass h
  · exact read_of_constantGlobal hexpression h

theorem readBy_globalOf (hexpression : Phrase.expression.ReadBy expression) (n : Nat) :
    Phrase.global.ReadBy (globalOf expression n) := by
  intro s g t h
  simp only [globalOf, offset_bind, freshId_bind, bind_eq_ok, expect_eq_ok, pure_apply,
    EStateM.Result.ok.injEq] at h
  obtain ⟨g', m, hg, -, m', ⟨hclose, rfl⟩, rfl, rfl⟩ := h
  have hread := read_of_globalBody hexpression hg
  have hpass := hread.passes.trans (ReaderState.passes_mark hclose (by decide))
  refine ⟨?_, hread.wellFormed, hread.anchored⟩
  simpa [Phrase.global, Phrase.openGlobal, Global.symbols] using hpass

end Globals

/-! ## §7 Functions -/

theorem readBy_parameter : Phrase.parameter.ReadBy parameter := by
  intro s p t h
  simp only [parameter, offset_bind, freshId_bind, bind_eq_ok, expect_eq_ok, pure_apply,
    EStateM.Result.ok.injEq] at h
  obtain ⟨name, m₁, hname, -, m₂, ⟨hcolon, rfl⟩, type, m₃, htype, rfl, rfl⟩ := h
  obtain ⟨hpname, hisName⟩ := passes_of_identifier hname
  obtain ⟨hptype, hisType⟩ := passes_of_identifier htype
  have hb₁ := ReaderState.Passes.of_freshId.trans hpname
  have hb₂ := hb₁.trans (ReaderState.passes_mark hcolon (by decide))
  have hpass := hb₂.trans hptype
  refine ⟨?_, fun hs => ⟨hisName hs, hisType (hb₂.proper hs)⟩, hpass.startsAt (by simp)⟩
  simpa [Phrase.parameter, Parameter.symbols] using hpass

theorem readBy_functionOf {statement : Reader Statement} (hstatement : Phrase.statement.ReadBy statement) (n : Nat) :
    Phrase.function.ReadBy (functionOf statement n) := by
  intro s f t h
  simp only [functionOf, offset_bind, freshId_bind, bind_eq_ok, expect_eq_ok, pure_apply,
    EStateM.Result.ok.injEq] at h
  obtain ⟨-, m₁, ⟨hfun, rfl⟩, name, m₂, hname, -, m₃, ⟨hopen, rfl⟩, parameters, m₄, hparameters, returns, m₅,
    hreturns, -, m₆, ⟨hdo, rfl⟩, body, m₇, hbody, -, m₈, ⟨hend, rfl⟩, rfl, rfl⟩ := h
  have hb₁ := ReaderState.Passes.of_freshId.trans (ReaderState.passes_word hfun (by decide))
  obtain ⟨hpname, hisName⟩ := passes_of_identifier hname
  have hb₂ := hb₁.trans hpname
  have hb₃ := hb₂.trans (ReaderState.passes_mark hopen (by decide))
  obtain ⟨m₄', hread, hclose⟩ := read_of_commaSeparated readBy_parameter (by decide) hparameters
  have hb₄ := (hb₃.trans hread.passes).trans hclose
  obtain ⟨hpreturns, hisType⟩ := passes_of_typeName? hreturns
  have hb₅ := (hb₄.trans hpreturns).trans (ReaderState.passes_word hdo (by decide))
  obtain ⟨hne, hread'⟩ := read_of_block hstatement hbody
  have hpass := (hb₅.trans hread'.passes).trans (ReaderState.passes_word hend (by decide))
  refine ⟨?_, fun hs => ?_, hpass.startsAt (by simp), ?_, ?_⟩
  · simpa [Phrase.function, Phrase.parameter, Phrase.statement, commaList, row, Function.symbols, Function.ids,
      List.map_eq_flatMap] using hpass
  · exact ⟨hisName (hb₁.proper hs), hread.wellFormed (hb₃.proper hs), hisType (hb₄.proper hs), hne,
      (allWellFormed_iff _).mpr (hread'.wellFormed (hb₅.proper hs))⟩
  · rw [hb₃.drop_eq_of (by simp)]
    exact hread.anchored
  · rw [hb₅.drop_eq_of (by simp [Phrase.parameter, commaList]; omega), blockAnchored_iff]
    exact hread'.anchored

/-! ## §8 Programs -/

theorem read_of_programOf {global : Reader Global} {function : Reader Function} {n : Nat}
    (hglobal : Phrase.global.ReadBy global) (hfunction : Phrase.function.ReadBy function) {p : Program}
    (h : programOf global function n s = .ok p t) : Phrase.program.Read p s t ∧ t.rest = [] := by
  simp only [programOf, bind_eq_ok, get_bind] at h
  obtain ⟨globals, m₁, hglobals, functions, m₂, hfunctions, h⟩ := h
  -- Tokens that are left over and a program without functions are errors.
  split_ifs at h with hleft hempty
  · simp at h
  · simp at h
  · simp only [pure_apply, EStateM.Result.ok.injEq] at h
    obtain ⟨rfl, rfl⟩ := h
    have hread := read_of_many (fun s g t _ h => hglobal s g t h) hglobals
    have hread' := read_of_many (fun s f t _ h => hfunction s f t h) hfunctions
    refine ⟨⟨?_, fun hs => ?_, hread.anchored, ?_⟩, ?_⟩
    · exact hread.passes.trans hread'.passes
    · exact ⟨hread.wellFormed hs, hread'.wellFormed (hread.passes.proper hs), by simpa using hempty⟩
    · have hrest : s.rest.drop (globals.flatMap Global.symbols).length = m₁.rest := hread.passes.drop_eq
      rw [hrest]
      exact hread'.anchored
    · simpa [ReaderState.current] using hleft

/-- A program is read from its written form, and no token is left. -/
theorem readBy_program {p : Program} (h : program s = .ok p t) : Phrase.program.Read p s t ∧ t.rest = [] := by
  rw [program, withBound, get_bind] at h
  exact read_of_programOf (readBy_globalOf (readBy_expressionWithin _) _)
    (readBy_functionOf (readBy_statementWithin _) _) h

end Reader

theorem passes_of_parse {ts : List Token} {p : Program} (h : parse ts = .ok p) :
    ∃ t, Phrase.program.Read p (ReaderState.ofTokens ts) t ∧ t.rest = [] := by
  unfold parse Reader.parse at h
  split at h
  · rename_i p' t hp
    obtain rfl := Except.ok.inj h
    exact ⟨t, Reader.readBy_program hp⟩
  · simp at h

/-- The written form of a parsed program is the tokens that it was parsed from, if these are proper. -/
theorem symbols_of_parse {ts : List Token} {p : Program} (hts : ∀ t ∈ ts, t.Proper) (h : parse ts = .ok p) :
    ts.map Token.symbol = p.symbols := by
  obtain ⟨t, hread, hrest⟩ := passes_of_parse h
  obtain ⟨used, hused, -, hsymbols⟩ := hread.passes.tokens
  rw [hrest, List.append_nil] at hused
  calc ts.map Token.symbol = used.map Token.symbol := by rw [← hused]; rfl
    _ = p.symbols := hsymbols hts

theorem wellFormed_of_parse {ts : List Token} {p : Program} (hts : ∀ t ∈ ts, t.Proper) (h : parse ts = .ok p) :
    p.WellFormed := by
  obtain ⟨t, hread, -⟩ := passes_of_parse h
  exact hread.wellFormed hts

theorem anchored_of_parse {ts : List Token} {p : Program} (h : parse ts = .ok p) : p.Anchored ts := by
  obtain ⟨t, hread, -⟩ := passes_of_parse h
  exact hread.anchored

/-- The nodes of a parsed program have ids of their own. -/
theorem nodup_ids_of_parse {ts : List Token} {p : Program} (h : parse ts = .ok p) : p.ids.Nodup := by
  obtain ⟨t, hread, -⟩ := passes_of_parse h
  -- Ids are handed out in order from 0.
  have hfresh : p.ids = List.range' 0 p.ids.length := hread.passes.fresh
  rw [hfresh]
  exact List.nodup_range'

end BlockLang
