import BlockLang.Proofs.Grammar.Acceptance

/-!
# Every written form is read

Wherever the written form of a tree that the grammar can write is next, its reader succeeds and yields that tree, up to
ids and offsets.  An expression is read up to the first symbol that cannot continue it; `Stops` says which symbols
cannot.

The bound of a reader must be at least the number of symbols that it is to read.

## Main statement

- `parse_of_symbols`: a program whose written form the tokens are is parsed.
-/

namespace BlockLang

open BlockLang.Symbol

/-! ## §1 How phrases begin and what can follow them -/

/-- The symbols that an expression can begin with. -/
def Symbol.Opens : Symbol → Prop
  | .literal _ => True
  | .word .identifier text => isKeyword text = false ∨ text ∈ ["NIL", "TRUE", "FALSE"]
  | .word .operator text => text = "("
  | .word _ _ => False

/-- The symbols that a statement can begin with. -/
def Symbol.Begins (symbol : Symbol) : Prop :=
  symbol.Opens ∨ ∃ word ∈ ["LET", "SWITCH", "IF", "WHILE", "RETURN"], symbol = ident word

/-- What follows cannot continue an expression of some level. -/
def Stops (level : Nat) (rest : List Symbol) : Prop :=
  ∀ symbol ∈ rest.head?, symbol ≠ mark "(" ∧ symbol ≠ mark "[" ∧
    ∀ op : Operator, level ≤ op.level → symbol ≠ mark op.symbol

theorem Stops.mono {l m : Nat} (hle : l ≤ m) {rest : List Symbol} (h : Stops l rest) : Stops m rest :=
  fun symbol hsymbol => ⟨(h symbol hsymbol).1, (h symbol hsymbol).2.1,
    fun op hop => (h symbol hsymbol).2.2 op (hle.trans hop)⟩

theorem Operator.symbol_injective {o p : Operator} (h : o.symbol = p.symbol) : o = p := by
  have ho := Operator.ofSymbol?_symbol o
  rw [h, Operator.ofSymbol?_symbol] at ho
  exact (Option.some.inj ho).symm

/-- An operator does not continue what binds tighter. -/
theorem stops_operator {level : Nat} {op : Operator} (h : op.level < level) (rest : List Symbol) :
    Stops level (mark op.symbol :: rest) := by
  intro symbol hsymbol
  obtain rfl : mark op.symbol = symbol := by simpa using hsymbol
  -- An operator is neither bracket, and it is no operator of a higher level.
  refine ⟨by cases op <;> decide, by cases op <;> decide, fun other hother heq => ?_⟩
  obtain rfl := Operator.symbol_injective (by simpa [mark] using heq)
  omega

/-- This punctuation follows expressions, and so do words. -/
theorem stops_mark {text : String} (h : text ∈ [")", "]", ",", ";", ":", "="]) (rest : List Symbol) :
    Stops 1 (mark text :: rest) := by
  intro symbol hsymbol
  obtain rfl : mark text = symbol := by simpa using hsymbol
  simp only [List.mem_cons, List.not_mem_nil, or_false] at h
  rcases h with rfl | rfl | rfl | rfl | rfl | rfl <;>
    exact ⟨by decide, by decide, fun op _ => by cases op <;> decide⟩

theorem stops_of_head? {rest : List Symbol}
    (h : ∃ text ∈ [")", "]", ",", ";", ":", "="], rest.head? = some (mark text)) : Stops 1 rest := by
  obtain ⟨text, hmem, hhead⟩ := h
  obtain ⟨more, rfl⟩ := List.head?_eq_some_iff.mp hhead
  exact stops_mark hmem more

theorem stops_ident (text : String) (rest : List Symbol) : Stops 1 (ident text :: rest) := by
  intro symbol hsymbol
  obtain rfl : ident text = symbol := by simpa using hsymbol
  simp [ident, mark]

theorem Literal.opens (value : Literal) : value.symbol.Opens := by
  cases value with
  | boolean b => cases b <;> simp [Literal.symbol, Opens, ident]
  | nil => simp [Literal.symbol, Opens, ident]
  | _ => trivial

theorem Expr.opens {e : Expr} (h : e.WellFormed) : ∃ symbol more, e.symbols = symbol :: more ∧ symbol.Opens := by
  match e, h with
  | .literal _ value, _ => exact ⟨value.symbol, [], rfl, value.opens⟩
  | .group _ inner, _ => exact ⟨_, _, rfl, rfl⟩
  | .binary _ op left right, h =>
    obtain ⟨symbol, more, heq, hopens⟩ := Expr.opens h.2.2.1
    exact ⟨symbol, more ++ mark op.symbol :: right.symbols, by rw [Expr.symbols, heq, List.cons_append], hopens⟩
  | .variable _ x, h => exact ⟨_, _, rfl, Or.inl h.2⟩
  | .element _ x index, h => exact ⟨_, _, rfl, Or.inl h.1.2⟩
  | .call _ x arguments, h => exact ⟨_, _, rfl, Or.inl h.1.2⟩
  | .list _ elements, h => exact h.elim

/-- An expression begins with no other reserved word. -/
theorem Symbol.Opens.ne_ident {symbol : Symbol} (h : symbol.Opens) {word : String} (hword : word ∈ keywords)
    (hconstant : word ∉ ["NIL", "TRUE", "FALSE"]) : symbol ≠ ident word := by
  rintro rfl
  rcases h with h | h
  · simp [isKeyword, hword] at h
  · exact hconstant h

/-- An expression begins with no other punctuation. -/
theorem Symbol.Opens.ne_mark {symbol : Symbol} (h : symbol.Opens) {text : String} (htext : text ≠ "(") :
    symbol ≠ mark text := by
  rintro rfl
  exact htext h

theorem Expr.length_symbols_pos {e : Expr} (h : e.WellFormed) : 0 < e.symbols.length := by
  obtain ⟨symbol, more, heq, -⟩ := Expr.opens h
  simp [heq]

/-- A statement begins with no word that ends a block. -/
theorem Symbol.Begins.ne_terminator {symbol : Symbol} (h : symbol.Begins) {word : String}
    (hword : word ∈ ["ELSE", "END", "CASE", "DEFAULT"]) : symbol ≠ ident word := by
  have hall : ∀ word ∈ ["ELSE", "END", "CASE", "DEFAULT"], word ∈ keywords ∧ word ∉ ["NIL", "TRUE", "FALSE"] ∧
      word ∉ ["LET", "SWITCH", "IF", "WHILE", "RETURN"] := by decide
  obtain ⟨hkeyword, hconstant, hfirst⟩ := hall word hword
  rcases h with h | ⟨other, hother, rfl⟩
  · exact h.ne_ident hkeyword hconstant
  · intro heq
    obtain rfl : other = word := by simpa [ident] using heq
    exact hfirst hother

theorem Statement.begins {x : Statement} (h : x.WellFormed) :
    ∃ symbol more, x.symbols = symbol :: more ∧ symbol.Begins := by
  cases x with
  | expression o value =>
    obtain ⟨symbol, more, heq, hopens⟩ := Expr.opens (e := value) h
    exact ⟨symbol, more ++ [mark ";"], by rw [Statement.symbols, heq, List.cons_append], Or.inl hopens⟩
  | assignment o receiver value =>
    obtain ⟨symbol, more, heq, hopens⟩ := Expr.opens (e := receiver) h.1
    refine ⟨symbol, more ++ mark "=" :: value.symbols ++ [mark ";"], ?_, Or.inl hopens⟩
    rw [Statement.symbols, heq, List.cons_append, List.cons_append]
  | declaration n x type value => exact ⟨_, _, rfl, Or.inr ⟨"LET", by decide, rfl⟩⟩
  | conditional o condition onTrue onFalse => exact ⟨_, _, rfl, Or.inr ⟨"IF", by decide, rfl⟩⟩
  | switch o condition cases => exact ⟨_, _, rfl, Or.inr ⟨"SWITCH", by decide, rfl⟩⟩
  | loop o condition body => exact ⟨_, _, rfl, Or.inr ⟨"WHILE", by decide, rfl⟩⟩
  | returning o value => exact ⟨_, _, rfl, Or.inr ⟨"RETURN", by decide, rfl⟩⟩

theorem Expr.level_pos (e : Expr) : 1 ≤ e.level := by
  cases e with
  | binary node op left right => cases op <;> simp [Expr.level, Operator.level]
  | _ => simp [Expr.level]

/-! ## §2 Lengths of written forms -/

section Lengths

variable {α : Type} {f : α → List Symbol} {xs : List α}

theorem length_le_length_flatMap (h : ∀ x ∈ xs, 0 < (f x).length) : xs.length ≤ (xs.flatMap f).length := by
  induction xs with
  | nil => simp
  | cons x rest ih =>
    have hx := h x (List.mem_cons_self ..)
    have hrest := ih fun y hy => h y (List.mem_cons_of_mem _ hy)
    rw [List.flatMap_cons, List.length_append, List.length_cons]
    omega

theorem length_le_of_mem {x : α} (h : x ∈ xs) : (f x).length ≤ (xs.flatMap f).length := by
  obtain ⟨before, after, rfl⟩ := List.append_of_mem h
  simp
  omega

theorem length_le_commas {x : α} (h : x ∈ xs) : (f x).length ≤ (commas (xs.map f)).length := by
  cases xs with
  | nil => simp at h
  | cons first rest =>
    rw [List.map_cons, commas, List.length_append, List.flatMap_map]
    rcases List.mem_cons.mp h with rfl | h
    · omega
    · have hlater := length_le_of_mem (f := fun x => mark "," :: f x) h
      simp only [List.length_cons] at hlater
      omega

theorem length_le_length_commas (h : ∀ x ∈ xs, 0 < (f x).length) : xs.length ≤ (commas (xs.map f)).length := by
  cases xs with
  | nil => simp
  | cons first rest =>
    have hfirst := h first (List.mem_cons_self ..)
    have hrest : rest.length ≤ (rest.flatMap fun x => mark "," :: f x).length :=
      length_le_length_flatMap fun x _ => by simp
    rw [List.map_cons, commas, List.length_append, List.length_cons, List.flatMap_map]
    omega

end Lengths

theorem length_le_blockSymbols {body : List Statement} (h : ∀ x ∈ body, x.WellFormed) :
    body.length ≤ (blockSymbols body).length := by
  rw [blockSymbols_eq]
  apply length_le_length_flatMap
  intro x hx
  obtain ⟨symbol, more, heq, -⟩ := Statement.begins (h x hx)
  simp [heq]

namespace Reader

open ReaderState Stateful

variable {s : ReaderState} {rest : List Symbol} {expression : Reader Expr} {n : Nat}

/-! ## §3 Operands -/

/-- The operator that is next, as a symbol. -/
theorem operator?_iff {op : Operator} : s.operator? = some op ↔ s.symbols.head? = some (mark op.symbol) := by
  have hhead : s.symbols.head? = s.current.map Token.symbol := by simp [symbols, ReaderState.current]
  rw [hhead, operator?_eq_some_iff, Option.map_eq_some_iff]
  constructor
  · rintro ⟨tok, hcurrent, hkind, htext⟩
    exact ⟨tok, hcurrent, by rw [Token.symbol_of_kind (Or.inr hkind), hkind, htext, mark]⟩
  · rintro ⟨tok, hcurrent, hsymbol⟩
    obtain ⟨hkind, htext⟩ := Token.symbol_eq_word hsymbol
    exact ⟨tok, hcurrent, hkind, htext⟩

/-- A chain ends in front of what cannot continue it. -/
theorem chain_of_stops {level : Nat} {operand : Reader Expr} (left : Expr) (h : Stops level s.symbols) (k : Nat) :
    chain level operand k left s = .ok left s := by
  cases k with
  | zero => rfl
  | succ k =>
    have hnone : operator? level s = .ok none s := by
      rw [operator?_apply]
      split
      · rename_i op hop
        rw [if_neg]
        rintro rfl
        exact (h _ (operator?_iff.mp hop)).2.2 op le_rfl rfl
      · rfl
    rw [chain, bind_of_ok hnone]
    rfl

/-- What the readers of one level accept if they read at most `size` symbols. -/
def AcceptsExpr (r : Reader Expr) (level size : Nat) : Prop :=
  ∀ e : Expr, e.symbols.length ≤ size → e.WellFormed → level ≤ e.level → ∀ rest, Stops level rest →
    Accepts r e.symbols rest (·.outline = e.outline)

/-- Reading the operands of one level comes, after the symbols of an expression of this level, to a chain that starts
with this expression.  The chain can still take as many operands as symbols are left. -/
theorem operands_eq_chain {level : Nat} {operand : Reader Expr} (hmost : level ≤ 4)
    (hoperand : AcceptsExpr operand (level + 1) (n + 1)) {e : Expr} (hsize : e.symbols.length ≤ n + 1)
    (hwf : e.WellFormed) (hlevel : level ≤ e.level)
    (hstops : Stops (level + 1) rest) (hs : s.Readable) (hsymbols : s.symbols = e.symbols ++ rest) :
    ∃ e' t k, operands level operand n s = chain level operand k e' t ∧ n + 1 ≤ k + e.symbols.length ∧
      e'.outline = e.outline ∧ t.Readable ∧ t.symbols = rest := by
  -- The induction is on the number of symbols and goes down the left operands of this level.
  induction hlength : e.symbols.length using Nat.strong_induction_on generalizing e rest with
  | _ length ih =>
    subst hlength
    -- Either the expression binds tighter and is one operand, or it is a binary expression of this level.
    by_cases htight : level + 1 ≤ e.level
    · obtain ⟨e', t, hread, houtline, ht, hrest⟩ := hoperand e hsize hwf htight rest hstops s hs hsymbols
      have hpos := Expr.length_symbols_pos hwf
      exact ⟨e', t, n, by rw [operands, bind_of_ok hread], by omega, houtline, ht, hrest⟩
    · obtain ⟨node, op, left, right, rfl⟩ : ∃ node op left right, e = .binary node op left right := by
        cases e with
        | binary node op left right => exact ⟨node, op, left, right, rfl⟩
        | _ => simp only [Expr.level] at htight hlevel; omega
      obtain rfl : op.level = level := by simp only [Expr.level] at htight hlevel; omega
      obtain ⟨hleft, hright, hwfl, hwfr⟩ := hwf
      have hposr := Expr.length_symbols_pos hwfr
      have hlength : (Expr.binary node op left right).symbols.length =
          left.symbols.length + right.symbols.length + 1 := by simp [Expr.symbols]; omega
      have hbefore : s.symbols = left.symbols ++ mark op.symbol :: (right.symbols ++ rest) := by
        rw [hsymbols, Expr.symbols, List.append_assoc, List.cons_append]
      obtain ⟨l, m, k, heq, hk, hl, hm, hafter⟩ := ih left.symbols.length (by omega) (by omega) hwfl hleft
        (stops_operator (Nat.lt_succ_self _) _) hbefore rfl
      -- The right operand and its operator take one step of the chain.
      obtain ⟨j, rfl⟩ : ∃ j, k = j + 1 := ⟨k - 1, by omega⟩
      obtain ⟨-, -, -, hrest⟩ := exists_current hafter
      have hop : operator? op.level m = .ok (some op) m.advance := by
        rw [operator?_apply, operator?_iff.mpr (by rw [hafter]; rfl)]
        exact if_pos rfl
      obtain ⟨r, u, hread, hr, hu, hrest'⟩ :=
        hoperand right (by omega) hwfr hright rest hstops m.advance hm.advance hrest
      refine ⟨.binary ⟨u.nextId, l.offset⟩ op l r, { u with nextId := u.nextId + 1 }, j, ?_, by omega, ?_, hu, hrest'⟩
      · rw [heq, chain, bind_of_ok hop]
        change (operand >>= _) m.advance = _
        rw [bind_of_ok hread, Reader.freshId_bind]
      · simp only [Expr.outline, hl, hr]

theorem accepts_operands {level : Nat} {operand : Reader Expr} (hmost : level ≤ 4)
    (hoperand : AcceptsExpr operand (level + 1) (n + 1)) : AcceptsExpr (operands level operand n) level (n + 1) := by
  intro e hsize hwf hlevel rest hstops s hs hsymbols
  obtain ⟨e', t, k, heq, -, houtline, ht, hrest⟩ :=
    operands_eq_chain hmost hoperand hsize hwf hlevel (hstops.mono (Nat.le_succ level)) hs hsymbols
  exact ⟨e', t, by rw [heq, chain_of_stops e' (by rwa [hrest])], houtline, ht, hrest⟩

/-! ## §4 Primary expressions -/

theorem literalOf?_of_symbol {tok : Token} {value : Literal} (h : tok.symbol = .literal value) :
    literalOf? tok = some value := by
  unfold Token.symbol at h
  split at h
  · rename_i found hfound
    rw [hfound]
    simpa using h
  · simp at h

/-- The token of a constant is read as that constant. -/
theorem primary_of_literal {tok : Token} {value : Literal} (hcurrent : s.current = some tok)
    (hsymbol : tok.symbol = value.symbol) : primary expression n s = literal tok.offset value s := by
  have hword (word : String) (hvalue : constantOf? word = some value) (h : tok.symbol = ident word) :
      primary expression n s = literal tok.offset value s := by
    obtain ⟨hkind, rfl⟩ := Token.symbol_eq_word h
    rw [primary, get_bind]
    simp only [hcurrent, hkind, hvalue]
  have hliteral (h : tok.symbol = .literal value) : primary expression n s = literal tok.offset value s := by
    have hvalue := literalOf?_of_symbol h
    rw [primary, get_bind]
    cases hkind : tok.kind with
    | identifier => simp [literalOf?, hkind] at hvalue
    | operator => simp [literalOf?, hkind] at hvalue
    | integer | decimal | character | string => simp only [hcurrent, hkind, hvalue]
  -- Three literals are reserved words; all others have tokens of their own kinds.
  cases value with
  | nil => exact hword "NIL" rfl hsymbol
  | boolean b =>
    cases b with
    | false => exact hword "FALSE" rfl hsymbol
    | true => exact hword "TRUE" rfl hsymbol
  | integer z => exact hliteral hsymbol
  | decimal d => exact hliteral hsymbol
  | character c => exact hliteral hsymbol
  | string x => exact hliteral hsymbol

theorem primary_of_mark {tok : Token} (hcurrent : s.current = some tok) (hsymbol : tok.symbol = mark "(") :
    primary expression n s = parenthesized expression tok.offset s := by
  obtain ⟨hkind, htext⟩ := Token.symbol_eq_word hsymbol
  rw [primary, get_bind]
  simp only [hcurrent, hkind, htext, if_true]

theorem primary_of_ident {tok : Token} {x : String} (hcurrent : s.current = some tok)
    (hsymbol : tok.symbol = ident x) (hx : IsName x) : primary expression n s = named expression n s := by
  obtain ⟨hkind, rfl⟩ := Token.symbol_eq_word hsymbol
  -- A name is not reserved, so it is no constant.
  have hconstant : constantOf? tok.text = none := by
    cases h : constantOf? tok.text with
    | none => rfl
    | some value =>
      have hmem : tok.text ∈ keywords := by
        unfold constantOf? at h
        split_ifs at h with h1 h2 h3
        · rw [h1]; decide
        · rw [h2]; decide
        · rw [h3]; decide
      exact absurd hx.2 (by simp [isKeyword, hmem])
  rw [primary, get_bind]
  simp only [hcurrent, hkind, hconstant, hx.2, Bool.false_eq_true, if_false]

theorem accepts_named_variable {x : String} (hx : IsName x) (hstops : Stops 5 rest) :
    Accepts (named expression n) [ident x] rest (·.outline = .variable .blank x) := by
  -- What follows an operand is no bracket, so the name stands alone.
  have hnot (text : String) (htext : text = "(" ∨ text = "[") : rest.head? ≠ some (mark text) := by
    intro hhead
    rcases htext with rfl | rfl
    · exact (hstops _ hhead).1 rfl
    · exact (hstops _ hhead).2.1 rfl
  refine Accepts.offset_bind fun start => Accepts.identifier_bind hx ?_
  refine Accepts.not_eat (fixed_mark (by decide)) (hnot "(" (Or.inl rfl)) ?_
  refine Accepts.not_eat (fixed_mark (by decide)) (hnot "[" (Or.inr rfl)) ?_
  exact Accepts.freshId_bind fun id => accepts_pure rfl

theorem accepts_named_element (hexpression : AcceptsExpr expression 1 n) {x : String} {index : Expr} (hx : IsName x)
    (hwf : index.WellFormed) (hlevel : 1 ≤ index.level) (hsize : index.symbols.length ≤ n) :
    Accepts (named expression n) (ident x :: mark "[" :: index.symbols ++ [mark "]"]) rest
      (·.outline = .element .blank x index.outline) := by
  refine Accepts.offset_bind fun start => Accepts.identifier_bind hx ?_
  refine Accepts.not_eat (fixed_mark (by decide)) (by simp [mark]) ?_
  apply Accepts.eat (fixed_mark (by decide))
  apply Accepts.bind (hexpression index hsize hwf hlevel _ (stops_mark (by decide) _))
  intro index' h
  refine Accepts.expect_bind (fixed_mark (by decide)) (Accepts.freshId_bind fun id => accepts_pure ?_)
  rw [Expr.outline, h]

theorem accepts_named_call (hexpression : AcceptsExpr expression 1 n) {x : String} {arguments : List Expr}
    (hx : IsName x) (hwf : ∀ e ∈ arguments, e.WellFormed)
    (hsize : (commas (arguments.map Expr.symbols)).length ≤ n) :
    Accepts (named expression n) (ident x :: mark "(" :: commas (arguments.map Expr.symbols) ++ [mark ")"]) rest
      (·.outline = .call .blank x (arguments.map Expr.outline)) := by
  refine Accepts.offset_bind fun start => Accepts.identifier_bind hx ?_
  refine Accepts.eat (fixed_mark (by decide)) ?_
  have harguments : Accepts (commaSeparated expression ")" n) (commas (arguments.map Expr.symbols) ++ [mark ")"]) rest
      (·.map Expr.outline = arguments.map Expr.outline) := by
    refine accepts_commaSeparated (by decide) (by decide) (fun e he later hlater => ?_) (fun e he later => ?_) ?_
    · refine hexpression e ?_ (hwf e he) e.level_pos later (stops_of_head? ?_)
      · exact (length_le_commas he).trans hsize
      · rcases hlater with h | h
        · exact ⟨_, by decide, h⟩
        · exact ⟨_, by decide, h⟩
    · obtain ⟨symbol, more, heq, hopens⟩ := Expr.opens (hwf e he)
      simpa [heq] using hopens.ne_mark (by decide)
    · exact (length_le_length_commas fun e he => Expr.length_symbols_pos (hwf e he)).trans hsize
  refine harguments.bind_nil fun arguments' h => Accepts.freshId_bind fun id => accepts_pure ?_
  rw [Expr.outline, Expr.allOutline_eq, h]

theorem accepts_parenthesized (hexpression : AcceptsExpr expression 1 n) {inner : Expr} (hwf : inner.WellFormed)
    (hsize : inner.symbols.length ≤ n) (start : Nat) :
    Accepts (parenthesized expression start) (mark "(" :: inner.symbols ++ [mark ")"]) rest
      (·.outline = .group .blank inner.outline) := by
  apply Accepts.advance_bind
  apply Accepts.bind (hexpression inner hsize hwf inner.level_pos _ (stops_mark (by decide) _))
  intro e h
  refine Accepts.expect_bind (fixed_mark (by decide)) (Accepts.freshId_bind fun id => accepts_pure ?_)
  rw [Expr.outline, h]

theorem accepts_primary (hexpression : AcceptsExpr expression 1 n) :
    AcceptsExpr (primary expression n) 5 (n + 1) := by
  intro e hsize hwf hlevel rest hstops
  apply Accepts.congr
  intro s hs hsymbols
  -- Trees of level 5 are those without an operator at the top.
  cases e with
  | literal node value =>
    obtain ⟨tok, hcurrent, hsymbol, -⟩ := exists_current hsymbols
    refine ⟨literal tok.offset value, primary_of_literal hcurrent hsymbol, ?_⟩
    exact Accepts.advance_bind (Accepts.freshId_bind fun id => accepts_pure rfl)
  | group node inner =>
    obtain ⟨tok, hcurrent, hsymbol, -⟩ := exists_current hsymbols
    have hinner : inner.WellFormed := hwf
    refine ⟨_, primary_of_mark hcurrent hsymbol, accepts_parenthesized hexpression hinner ?_ _⟩
    simp [Expr.symbols] at hsize
    omega
  | «variable» node x =>
    obtain ⟨tok, hcurrent, hsymbol, -⟩ := exists_current hsymbols
    exact ⟨_, primary_of_ident hcurrent hsymbol hwf, accepts_named_variable hwf hstops⟩
  | element node x index =>
    obtain ⟨tok, hcurrent, hsymbol, -⟩ := exists_current hsymbols
    refine ⟨_, primary_of_ident hcurrent hsymbol hwf.1, ?_⟩
    apply accepts_named_element hexpression hwf.1 hwf.2 index.level_pos
    simp [Expr.symbols] at hsize
    omega
  | call node x arguments =>
    obtain ⟨tok, hcurrent, hsymbol, -⟩ := exists_current hsymbols
    refine ⟨_, primary_of_ident hcurrent hsymbol hwf.1, ?_⟩
    rw [Expr.outline, Expr.symbols, Expr.allSymbols_eq, Expr.allOutline_eq]
    apply accepts_named_call hexpression hwf.1 ((Expr.allWellFormed_iff _).mp hwf.2)
    simp [Expr.symbols] at hsize
    omega
  | list node elements => exact hwf.elim
  | binary node op left right =>
    have hmost : op.level ≤ 4 := by cases op <;> decide
    exact absurd (hlevel.trans hmost) (by decide)

/-! ## §5 Expressions -/

theorem accepts_logical (hexpression : AcceptsExpr expression 1 n) : AcceptsExpr (logical expression n) 1 (n + 1) := by
  have hmultiplicative : AcceptsExpr (multiplicative expression n) 4 (n + 1) :=
    accepts_operands (by decide) (accepts_primary hexpression)
  have hadditive : AcceptsExpr (additive expression n) 3 (n + 1) := accepts_operands (by decide) hmultiplicative
  have hcomparison : AcceptsExpr (comparison expression n) 2 (n + 1) := accepts_operands (by decide) hadditive
  exact accepts_operands (by decide) hcomparison

theorem accepts_expressionWithin (n : Nat) : AcceptsExpr (expressionWithin n) 1 n := by
  -- Every nesting consumes a symbol, so the number of symbols bounds the depth.
  induction n with
  | zero =>
    intro e hsize hwf
    have hpos := Expr.length_symbols_pos hwf
    omega
  | succ n ih => exact accepts_logical ih

/-! ## §6 Types, initial values and blocks -/

theorem accepts_typeName? {type : Option String} (htype : ∀ x ∈ type, IsName x)
    (hrest : rest.head? ≠ some (mark ":")) : Accepts typeName? (typeSymbols type) rest (· = type) := by
  cases type with
  | none => exact Accepts.not_eat (fixed_mark (by decide)) hrest (accepts_pure rfl)
  | some x =>
    apply Accepts.eat (fixed_mark (by decide))
    exact Accepts.identifier_bind (htype x rfl) (accepts_pure rfl)

theorem accepts_initializer? (hexpression : AcceptsExpr expression 1 n) {value : Option Expr}
    (hwf : ∀ e ∈ value, e.WellFormed) (hsize : (valueSymbols value).length ≤ n) (hrest : rest.head? = some (mark ";")) :
    Accepts (initializer? expression) (valueSymbols value) rest (·.map Expr.outline = value.map Expr.outline) := by
  cases value with
  | none => exact Accepts.not_eat (fixed_mark (by decide)) (by simp [valueSymbols, hrest, mark]) (accepts_pure rfl)
  | some e =>
    have hsize : e.symbols.length ≤ n := by
      simp [valueSymbols] at hsize
      omega
    apply Accepts.eat (fixed_mark (by decide))
    refine Accepts.bind_nil (hexpression e hsize (hwf e rfl) e.level_pos rest
      (stops_of_head? ⟨";", by decide, hrest⟩)) fun e' h => accepts_pure ?_
    simp [h]

theorem peekOneOf_eq (s : ReaderState) (texts : List String) : s.peekOneOf texts = texts.any (s.peek ·) := by
  unfold ReaderState.peekOneOf ReaderState.peek
  cases s.current with
  | none => simp
  | some tok => rw [Bool.eq_iff_iff]; simp

/-- What the readers of statements accept if they read at most `size` symbols. -/
def AcceptsStatement (r : Reader Statement) (size : Nat) : Prop :=
  ∀ x : Statement, x.symbols.length ≤ size → x.WellFormed → ∀ rest, Accepts r x.symbols rest (·.outline = x.outline)

/-- The words that end a block. -/
def EndsBlock (terminators : List String) (rest : List Symbol) : Prop :=
  (∀ word ∈ terminators, word ∈ ["ELSE", "END", "CASE", "DEFAULT"]) ∧
    ∃ word ∈ terminators, rest.head? = some (ident word)

section Statements

variable {statement : Reader Statement} {terminators : List String} {body : List Statement}

theorem accepts_statements (hstatement : AcceptsStatement statement n) (hwf : ∀ x ∈ body, x.WellFormed)
    (hsize : (blockSymbols body).length ≤ n) (hends : EndsBlock terminators rest) {k : Nat} (hk : body.length < k) :
    Accepts (statements statement terminators k) (blockSymbols body) rest
      (·.map Statement.outline = body.map Statement.outline) := by
  have hkeywords : ∀ word ∈ terminators, word ∈ keywords := by
    have hall : ∀ word ∈ ["ELSE", "END", "CASE", "DEFAULT"], word ∈ keywords := by decide
    exact fun word hword => hall word (hends.1 word hword)
  -- The bound on the number of statements goes down with each of them.
  induction body generalizing k with
  | nil =>
    obtain ⟨m, rfl⟩ : ∃ m, k = m + 1 := ⟨k - 1, by simp at hk; omega⟩
    apply Accepts.get_bind
    intro s hs hsymbols
    obtain ⟨word, hword, hhead⟩ := hends.2
    have hpeek : s.peekOneOf terminators = true := by
      rw [peekOneOf_eq, List.any_eq_true]
      refine ⟨word, hword, ?_⟩
      rw [hs.peek_word (hkeywords word hword), hsymbols]
      simp [blockSymbols, hhead]
    rw [if_pos hpeek]
    exact accepts_pure rfl
  | cons first body ih =>
    obtain ⟨m, rfl⟩ : ∃ m, k = m + 1 := ⟨k - 1, by simp at hk; omega⟩
    have hfirst := hwf first (List.mem_cons_self ..)
    obtain ⟨symbol, more, heq, hbegins⟩ := Statement.begins hfirst
    have hlength : first.symbols.length + (blockSymbols body).length ≤ n := by simpa [blockSymbols] using hsize
    apply Accepts.get_bind
    intro s hs hsymbols
    have hpeek : s.peekOneOf terminators = false := by
      rw [peekOneOf_eq, List.any_eq_false]
      intro word hword
      rw [hs.peek_word (hkeywords word hword), hsymbols, blockSymbols, heq]
      simpa using hbegins.ne_terminator (hends.1 word hword)
    have hsome : s.current.isNone = false := by
      rw [blockSymbols, heq] at hsymbols
      obtain ⟨tok, hcurrent, -⟩ := exists_current hsymbols
      simp [hcurrent]
    rw [hpeek, hsome]
    apply Accepts.bind (hstatement first (by omega) hfirst _)
    intro first' h
    refine Accepts.bind_nil (ih (fun x hx => hwf x (List.mem_cons_of_mem _ hx)) (by omega) (by simp at hk; omega))
      fun body' h' => accepts_pure ?_
    simp [h, h']

theorem accepts_block (hstatement : AcceptsStatement statement n) (hne : body ≠ []) (hwf : ∀ x ∈ body, x.WellFormed)
    (hsize : (blockSymbols body).length < n) (hends : EndsBlock terminators rest) :
    Accepts (block statement terminators n) (blockSymbols body) rest
      (·.map Statement.outline = body.map Statement.outline) := by
  have hlength := length_le_blockSymbols hwf
  apply Accepts.bind_nil (accepts_statements hstatement hwf hsize.le hends (by omega))
  intro body' h
  have hnonempty : body'.isEmpty = false := by
    cases body' with
    | nil => exact absurd (List.map_eq_nil_iff.mp h.symm) hne
    | cons x xs => rfl
  rw [hnonempty]
  exact accepts_pure h

/-! ## §7 Statements -/

theorem accepts_declaration (hexpression : AcceptsExpr expression 1 n) {x : String} {type : Option String}
    {value : Option Expr} (hx : IsName x) (htype : ∀ t ∈ type, IsName t) (hvalue : ∀ e ∈ value, e.WellFormed)
    (hsize : (valueSymbols value).length ≤ n) (start : Nat) :
    Accepts (declaration expression start) (ident x :: (typeSymbols type ++ (valueSymbols value ++ [mark ";"]))) rest
      (·.outline = .declaration .blank x type (value.map Expr.outline)) := by
  refine Accepts.freshId_bind fun id => Accepts.identifier_bind hx ?_
  refine Accepts.bind (accepts_typeName? htype ?_) ?_
  · cases value <;> simp [valueSymbols, mark]
  rintro _ rfl
  apply Accepts.bind (accepts_initializer? hexpression hvalue hsize rfl)
  intro value' h
  refine Accepts.expect_bind (fixed_mark (by decide)) (accepts_pure ?_)
  rw [Statement.outline, h]

theorem accepts_returned (hexpression : AcceptsExpr expression 1 n) {value : Expr} (hwf : value.WellFormed)
    (hsize : value.symbols.length ≤ n) (start : Nat) :
    Accepts (returned expression start) (value.symbols ++ [mark ";"]) rest
      (·.outline = .returning 0 value.outline) := by
  apply Accepts.bind (hexpression value hsize hwf value.level_pos _ (stops_mark (by decide) _))
  intro e h
  refine Accepts.expect_bind (fixed_mark (by decide)) (accepts_pure ?_)
  rw [Statement.outline, h]

theorem accepts_effect (hexpression : AcceptsExpr expression 1 n) {value : Expr} (hwf : value.WellFormed)
    (hsize : value.symbols.length ≤ n) (start : Nat) :
    Accepts (effect expression start) (value.symbols ++ [mark ";"]) rest
      (·.outline = .expression 0 value.outline) := by
  apply Accepts.bind (hexpression value hsize hwf value.level_pos _ (stops_mark (by decide) _))
  intro e h
  apply Accepts.not_eat (fixed_mark (by decide)) (by simp [mark])
  refine Accepts.expect_bind (fixed_mark (by decide)) (accepts_pure ?_)
  rw [Statement.outline, h]

theorem accepts_effect_assignment (hexpression : AcceptsExpr expression 1 n) {receiver value : Expr}
    (hreceiver : receiver.WellFormed) (hvalue : value.WellFormed) (hsize : receiver.symbols.length ≤ n)
    (hsize' : value.symbols.length ≤ n) (start : Nat) :
    Accepts (effect expression start) (receiver.symbols ++ (mark "=" :: (value.symbols ++ [mark ";"]))) rest
      (·.outline = .assignment 0 receiver.outline value.outline) := by
  apply Accepts.bind (hexpression receiver hsize hreceiver receiver.level_pos _
    (stops_mark (by decide) _))
  intro r hr
  apply Accepts.eat (fixed_mark (by decide))
  apply Accepts.bind (hexpression value hsize' hvalue value.level_pos _
    (stops_mark (by decide) _))
  intro e he
  refine Accepts.expect_bind (fixed_mark (by decide)) (accepts_pure ?_)
  rw [Statement.outline, hr, he]

theorem accepts_loop (hexpression : AcceptsExpr expression 1 n) (hstatement : AcceptsStatement statement n)
    {condition : Expr} (hcondition : condition.WellFormed) (hne : body ≠ []) (hbody : ∀ x ∈ body, x.WellFormed)
    (hsize : condition.symbols.length ≤ n) (hsize' : (blockSymbols body).length < n) (start : Nat) :
    Accepts (loop expression statement n start)
      (condition.symbols ++ (ident "DO" :: (blockSymbols body ++ [ident "END"]))) rest
      (·.outline = .loop 0 condition.outline (body.map Statement.outline)) := by
  apply Accepts.bind (hexpression condition hsize hcondition condition.level_pos _ (stops_ident _ _))
  intro e he
  apply Accepts.expect_bind (fixed_word (by decide))
  apply Accepts.bind (accepts_block hstatement hne hbody hsize' ⟨by decide, _, by decide, rfl⟩)
  intro body' h
  refine Accepts.expect_bind (fixed_word (by decide)) (accepts_pure ?_)
  rw [Statement.outline, blockOutline_eq, he, h]

/-- The symbols of the branch after `ELSE`. -/
def elseSymbols (onFalse : List Statement) : List Symbol :=
  if onFalse.isEmpty then [] else ident "ELSE" :: blockSymbols onFalse

theorem accepts_conditional (hexpression : AcceptsExpr expression 1 n) (hstatement : AcceptsStatement statement n)
    {condition : Expr} {onFalse : List Statement} (hcondition : condition.WellFormed) (hne : body ≠ [])
    (hbody : ∀ x ∈ body, x.WellFormed) (hfalse : ∀ x ∈ onFalse, x.WellFormed) (hsize : condition.symbols.length ≤ n)
    (hsize' : (blockSymbols body).length < n) (hsize'' : (blockSymbols onFalse).length < n) (start : Nat) :
    Accepts (conditional expression statement n start)
      (condition.symbols ++ (ident "DO" :: (blockSymbols body ++ (elseSymbols onFalse ++ [ident "END"])))) rest
      (·.outline = .conditional 0 condition.outline (body.map Statement.outline) (onFalse.map Statement.outline)) := by
  apply Accepts.bind (hexpression condition hsize hcondition condition.level_pos _ (stops_ident _ _))
  intro e he
  apply Accepts.expect_bind (fixed_word (by decide))
  -- Without statements on false, `END` follows at once.
  cases onFalse with
  | nil =>
    apply Accepts.bind (accepts_block hstatement hne hbody hsize' ⟨by decide, "END", by decide, rfl⟩)
    intro body' h
    apply Accepts.not_eat_bind (fixed_word (by decide)) (by simp [elseSymbols, ident])
    apply Accepts.bind (accepts_pure rfl)
    rintro _ rfl
    refine Accepts.expect_bind (fixed_word (by decide)) (accepts_pure ?_)
    rw [Statement.outline, blockOutline_eq, blockOutline_eq, he, h]
  | cons first more =>
    apply Accepts.bind (accepts_block hstatement hne hbody hsize' ⟨by decide, "ELSE", by decide, rfl⟩)
    intro body' h
    apply Accepts.eat_bind (fixed_word (by decide))
    apply Accepts.bind (accepts_block hstatement (List.cons_ne_nil _ _) hfalse hsize''
      ⟨by decide, "END", by decide, rfl⟩)
    intro onFalse' h'
    refine Accepts.expect_bind (fixed_word (by decide)) (accepts_pure ?_)
    rw [Statement.outline, blockOutline_eq, blockOutline_eq, he, h, h']

/-- What an arm with a value accepts, in front of what ends its block. -/
theorem accepts_valueCase (hexpression : AcceptsExpr expression 1 n) (hstatement : AcceptsStatement statement n)
    {arm : Case} (hwf : arm.WellFormed) (hvalue : arm.value ≠ none) (hsize : arm.symbols.length ≤ n)
    (hends : EndsBlock ["CASE", "DEFAULT", "END"] rest) :
    Accepts (valueCase expression statement n) arm.symbols rest (·.outline = arm.outline) := by
  obtain ⟨offset, value, body⟩ := arm
  obtain ⟨v, rfl⟩ : ∃ v, value = some v := Option.ne_none_iff_exists'.mp hvalue
  obtain ⟨hv, hne, hbody⟩ := hwf
  have hsymbols : Case.symbols (.mk offset (some v) body) =
      ident "CASE" :: (v.symbols ++ (mark ":" :: blockSymbols body)) := by simp [Case.symbols]
  have hlength : v.symbols.length + (blockSymbols body).length + 2 ≤ n := by
    rw [hsymbols] at hsize
    simp only [List.length_cons, List.length_append] at hsize
    omega
  rw [hsymbols]
  refine Accepts.offset_bind fun start => Accepts.advance_bind ?_
  refine Accepts.bind (hexpression v (by omega) (hv v rfl) v.level_pos _
    (stops_mark (by decide) _)) fun v' h => ?_
  apply Accepts.expect_bind (fixed_mark (by decide))
  refine Accepts.bind_nil (accepts_block hstatement hne ((allWellFormed_iff _).mp hbody) (by omega) hends)
    fun body' h' => accepts_pure ?_
  simp [Case.outline, h, h']

theorem accepts_switch (hexpression : AcceptsExpr expression 1 n) (hstatement : AcceptsStatement statement n)
    {condition : Expr} {arms : List Case} (hcondition : condition.WellFormed)
    (harms : ∀ arm ∈ arms, arm.WellFormed ∧ arm.value ≠ none) (hne : body ≠ []) (hbody : ∀ x ∈ body, x.WellFormed)
    (hsize : condition.symbols.length ≤ n) (hsize' : (arms.flatMap Case.symbols).length ≤ n)
    (hsize'' : (blockSymbols body).length < n) (start : Nat) :
    Accepts (switch expression statement n start)
      (condition.symbols ++
        (arms.flatMap Case.symbols ++ (ident "DEFAULT" :: (blockSymbols body ++ [ident "END"])))) rest
      (·.outline = .switch 0 condition.outline
        (arms.map Case.outline ++ [.mk 0 none (body.map Statement.outline)])) := by
  have hstart : ∀ arm ∈ arms, ∃ more, arm.symbols = ident "CASE" :: more := by
    rintro ⟨offset, value, body⟩ hmem
    obtain ⟨v, rfl⟩ : ∃ v, value = some v := Option.ne_none_iff_exists'.mp (harms _ hmem).2
    exact ⟨_, rfl⟩
  -- Both words that may follow the condition are reserved, so neither continues it.
  have hstops : Stops 1
      (arms.flatMap Case.symbols ++ (ident "DEFAULT" :: (blockSymbols body ++ [ident "END"])) ++ rest) := by
    cases arms with
    | nil => exact stops_ident _ _
    | cons arm more =>
      obtain ⟨after, heq⟩ := hstart arm (List.mem_cons_self ..)
      simp only [List.flatMap_cons, heq]
      exact stops_ident _ _
  apply Accepts.bind (hexpression condition hsize hcondition condition.level_pos _ hstops)
  intro e he
  have hcases : Accepts (many (·.peek "CASE") (valueCase expression statement n) n) (arms.flatMap Case.symbols)
      (ident "DEFAULT" :: (blockSymbols body ++ [ident "END"]) ++ rest)
      (·.map Case.outline = arms.map Case.outline) := by
    refine accepts_many (EndsBlock ["CASE", "DEFAULT", "END"]) ?_ ?_ ?_ ?_ ?_ ?_
    · intro arm harm later hlater
      exact accepts_valueCase hexpression hstatement (harms arm harm).1 (harms arm harm).2
        ((length_le_of_mem harm).trans hsize') hlater
    · exact ⟨by decide, "DEFAULT", by decide, rfl⟩
    · intro arm harm later
      obtain ⟨more, heq⟩ := hstart arm harm
      exact ⟨by decide, "CASE", by decide, by rw [heq]; rfl⟩
    · intro arm harm s hs later hsymbols
      obtain ⟨more, heq⟩ := hstart arm harm
      rw [hs.peek_word (by decide), hsymbols, heq]
      simp
    · intro s hs hsymbols
      rw [hs.peek_word (by decide), hsymbols]
      simp [ident]
    · refine (length_le_length_flatMap fun arm harm => ?_).trans hsize'
      obtain ⟨more, heq⟩ := hstart arm harm
      simp [heq]
  refine Accepts.bind hcases fun cases' h => Accepts.offset_bind fun start' => ?_
  apply Accepts.expect_bind (fixed_word (by decide))
  apply Accepts.bind (accepts_block hstatement hne hbody hsize'' ⟨by decide, "END", by decide, rfl⟩)
  intro body' h'
  refine Accepts.expect_bind (fixed_word (by decide)) (accepts_pure ?_)
  simp [Statement.outline, Case.outline, he, h, h']

/-- A statement that begins with none of the words is read as an effect. -/
theorem accepts_statementOf_effect {a : List Symbol} {P : Statement → Prop} {symbol : Symbol}
    (hhead : a.head? = some symbol) (hopens : symbol.Opens)
    (h : ∀ start, Accepts (effect expression start) a rest P) :
    Accepts (statementOf expression statement n) a rest P := by
  -- An expression begins with none of the five words.
  have hnot (word : String) (hword : word ∈ ["LET", "SWITCH", "IF", "WHILE", "RETURN"]) :
      (a ++ rest).head? ≠ some (ident word) := by
    have hall : ∀ word ∈ ["LET", "SWITCH", "IF", "WHILE", "RETURN"],
        word ∈ keywords ∧ word ∉ ["NIL", "TRUE", "FALSE"] := by decide
    obtain ⟨hkeyword, hconstant⟩ := hall word hword
    rw [List.head?_append, hhead]
    simpa using hopens.ne_ident hkeyword hconstant
  apply Accepts.offset_bind
  intro start
  apply Accepts.not_eat (fixed_word (by decide)) (hnot "LET" (by decide))
  apply Accepts.not_eat (fixed_word (by decide)) (hnot "SWITCH" (by decide))
  apply Accepts.not_eat (fixed_word (by decide)) (hnot "IF" (by decide))
  apply Accepts.not_eat (fixed_word (by decide)) (hnot "WHILE" (by decide))
  exact Accepts.not_eat (fixed_word (by decide)) (hnot "RETURN" (by decide)) (h start)

/-- The first word of a statement decides how it is read. -/
theorem accepts_statementOf (hexpression : AcceptsExpr expression 1 n) (hstatement : AcceptsStatement statement n) :
    AcceptsStatement (statementOf expression statement n) (n + 1) := by
  intro x hsize hwf rest
  -- Statements that begin with an expression come last, when no word has matched.
  cases x with
  | expression o value =>
    obtain ⟨symbol, more, heq, hopens⟩ := Expr.opens (e := value) hwf
    have hvalue : value.symbols.length ≤ n := by simpa [Statement.symbols] using hsize
    exact accepts_statementOf_effect (by simp [Statement.symbols, heq]) hopens
      fun start => accepts_effect hexpression hwf hvalue start
  | assignment o receiver value =>
    obtain ⟨symbol, more, heq, hopens⟩ := Expr.opens hwf.1
    have hlength : receiver.symbols.length ≤ n ∧ value.symbols.length ≤ n := by
      simp [Statement.symbols] at hsize
      omega
    apply accepts_statementOf_effect (by simp [Statement.symbols, heq]) hopens
    intro start
    rw [Statement.symbols, List.append_assoc, List.cons_append]
    exact accepts_effect_assignment hexpression hwf.1 hwf.2 hlength.1 hlength.2 start
  | declaration node x type value =>
    have hlength : (valueSymbols value).length ≤ n := by
      simp [Statement.symbols] at hsize
      omega
    rw [Statement.symbols, List.cons_append, List.cons_append, List.append_assoc]
    refine Accepts.offset_bind fun start => Accepts.eat (fixed_word (by decide)) ?_
    exact accepts_declaration hexpression hwf.1 hwf.2.1 hwf.2.2 hlength start
  | returning o value =>
    have hlength : value.symbols.length ≤ n := by
      simp [Statement.symbols] at hsize
      omega
    rw [Statement.symbols, List.cons_append]
    refine Accepts.offset_bind fun start => Accepts.not_eat_word (by decide) (by decide) ?_
    refine Accepts.not_eat_word (by decide) (by decide) ?_
    apply Accepts.not_eat_word (by decide) (by decide)
    apply Accepts.not_eat_word (by decide) (by decide)
    exact Accepts.eat (fixed_word (by decide)) (accepts_returned hexpression hwf hlength start)
  | loop o condition body =>
    obtain ⟨hcondition, hne, hbody⟩ := hwf
    have hsymbols : Statement.symbols (.loop o condition body) =
        ident "WHILE" :: (condition.symbols ++ (ident "DO" :: (blockSymbols body ++ [ident "END"]))) := by
      simp [Statement.symbols]
    have hlength : condition.symbols.length ≤ n ∧ (blockSymbols body).length < n := by
      rw [hsymbols] at hsize
      simp only [List.length_cons, List.length_append] at hsize
      omega
    rw [hsymbols]
    refine Accepts.offset_bind fun start => Accepts.not_eat_word (by decide) (by decide) ?_
    refine Accepts.not_eat_word (by decide) (by decide) ?_
    apply Accepts.not_eat_word (by decide) (by decide)
    apply Accepts.eat (fixed_word (by decide))
    rw [Statement.outline, blockOutline_eq]
    exact accepts_loop hexpression hstatement hcondition hne ((allWellFormed_iff _).mp hbody) hlength.1 hlength.2 start
  | conditional o condition onTrue onFalse =>
    obtain ⟨hcondition, hne, htrue, hfalse⟩ := hwf
    have hsymbols : Statement.symbols (.conditional o condition onTrue onFalse) = ident "IF" ::
        (condition.symbols ++ (ident "DO" :: (blockSymbols onTrue ++ (elseSymbols onFalse ++ [ident "END"])))) := by
      simp [Statement.symbols, elseSymbols]
    have helse : (blockSymbols onFalse).length ≤ (elseSymbols onFalse).length := by
      cases onFalse <;> simp [elseSymbols, blockSymbols]
    have hlength : condition.symbols.length ≤ n ∧ (blockSymbols onTrue).length < n ∧
        (blockSymbols onFalse).length < n := by
      rw [hsymbols] at hsize
      simp only [List.length_cons, List.length_append] at hsize
      omega
    rw [hsymbols]
    refine Accepts.offset_bind fun start => Accepts.not_eat_word (by decide) (by decide) ?_
    refine Accepts.not_eat_word (by decide) (by decide) ?_
    apply Accepts.eat (fixed_word (by decide))
    rw [Statement.outline, blockOutline_eq, blockOutline_eq]
    exact accepts_conditional hexpression hstatement hcondition hne ((allWellFormed_iff _).mp htrue)
      ((allWellFormed_iff _).mp hfalse) hlength.1 hlength.2.1 hlength.2.2 start
  | switch o condition cases =>
    obtain ⟨hcondition, harms⟩ := hwf
    obtain ⟨arms, offset, body, rfl, hne, hbody, hvalued⟩ := (armsWellFormed_iff _).mp harms
    have hsymbols : Statement.symbols (.switch o condition (arms ++ [.mk offset none body])) = ident "SWITCH" ::
        (condition.symbols ++ (arms.flatMap Case.symbols ++
          (ident "DEFAULT" :: (blockSymbols body ++ [ident "END"])))) := by
      simp [Statement.symbols, Case.symbols]
    have hlength : condition.symbols.length ≤ n ∧ (arms.flatMap Case.symbols).length ≤ n ∧
        (blockSymbols body).length < n := by
      rw [hsymbols] at hsize
      simp only [List.length_cons, List.length_append] at hsize
      omega
    rw [hsymbols]
    refine Accepts.offset_bind fun start => Accepts.not_eat_word (by decide) (by decide) ?_
    refine Accepts.eat (fixed_word (by decide)) ?_
    have houtline : Statement.outline (.switch o condition (arms ++ [.mk offset none body])) =
        .switch 0 condition.outline (arms.map Case.outline ++ [.mk 0 none (body.map Statement.outline)]) := by
      simp [Statement.outline, Case.outline]
    rw [houtline]
    exact accepts_switch hexpression hstatement hcondition hvalued hne hbody hlength.1 hlength.2.1 hlength.2.2 start

end Statements

theorem accepts_statementWithin (n : Nat) : AcceptsStatement (statementWithin n) n := by
  induction n with
  | zero =>
    intro x hsize hwf
    obtain ⟨symbol, more, heq, -⟩ := Statement.begins hwf
    simp [heq] at hsize
  | succ n ih => exact accepts_statementOf (accepts_expressionWithin n) ih

/-! ## §8 Globals -/

section Globals

theorem accepts_listLiteral (hexpression : AcceptsExpr expression 1 n) {elements : List Expr} (hne : elements ≠ [])
    (hwf : ∀ e ∈ elements, e.WellFormed) (hsize : (commas (elements.map Expr.symbols)).length ≤ n) :
    Accepts (listLiteral expression n) (mark "[" :: (commas (elements.map Expr.symbols) ++ [mark "]"])) rest
      (·.outline = .list .blank (elements.map Expr.outline)) := by
  have hitem : ∀ e ∈ elements, ∀ later, later.head? = some (mark ",") ∨ later.head? = some (mark "]") →
      Accepts expression e.symbols later (·.outline = e.outline) := by
    intro e he later hlater
    refine hexpression e ((length_le_commas he).trans hsize) (hwf e he) e.level_pos later (stops_of_head? ?_)
    rcases hlater with h | h
    · exact ⟨_, by decide, h⟩
    · exact ⟨_, by decide, h⟩
  obtain ⟨first, more, rfl⟩ := List.exists_cons_of_ne_nil hne
  -- The first element stands alone, each other one behind a comma.
  have hmany : Accepts (many (·.peek ",") (advance *> expression) n) (more.flatMap (mark "," :: ·.symbols))
      ([mark "]"] ++ rest) (·.map Expr.outline = more.map Expr.outline) := by
    refine accepts_many (fun later => later.head? = some (mark ",") ∨ later.head? = some (mark "]")) ?_ ?_ ?_ ?_ ?_ ?_
    · intro e he later hlater
      exact Accepts.advance_seqRight (hitem e (List.mem_cons_of_mem _ he) later hlater)
    · exact Or.inr rfl
    · exact fun e he later => Or.inl rfl
    · intro e he s hs later hsymbols
      rw [hs.peek_mark (by decide), hsymbols]
      simp
    · intro s hs hsymbols
      rw [hs.peek_mark (by decide), hsymbols]
      simp [mark]
    · have hlength := (length_le_length_commas fun e he => Expr.length_symbols_pos (hwf e he)).trans hsize
      rw [List.length_cons] at hlength
      omega
  rw [List.map_cons, commas, List.flatMap_map, List.append_assoc]
  refine Accepts.offset_bind fun start => Accepts.freshId_bind fun id => ?_
  apply Accepts.expect_bind (fixed_mark (by decide))
  refine Accepts.bind (hitem first (List.mem_cons_self ..) _ ?_) fun first' hfirst => ?_
  · cases more with
    | nil => exact Or.inr rfl
    | cons e es => exact Or.inl rfl
  refine Accepts.bind hmany fun more' hmore => Accepts.expect_bind (fixed_mark (by decide)) (accepts_pure ?_)
  simp [Expr.outline, hfirst, hmore]

theorem accepts_listGlobal (hexpression : AcceptsExpr expression 1 n) {x type : String} {elements : List Expr}
    (hx : IsName x) (htype : IsName type) (hne : elements ≠ []) (hwf : ∀ e ∈ elements, e.WellFormed)
    (hsize : (commas (elements.map Expr.symbols)).length ≤ n) (node : Node) :
    Accepts (listGlobal expression n node) (ident x :: mark ":" :: ident type :: mark "=" :: mark "[" ::
      (commas (elements.map Expr.symbols) ++ [mark "]"])) rest
      (·.outline = ⟨.blank, x, true, some type, some (.list .blank (elements.map Expr.outline))⟩) := by
  refine Accepts.identifier_bind hx (Accepts.expect_bind (fixed_mark (by decide)) ?_)
  refine Accepts.identifier_bind htype (Accepts.expect_bind (fixed_mark (by decide)) ?_)
  refine Accepts.bind_nil (accepts_listLiteral hexpression hne hwf hsize) fun e h => accepts_pure ?_
  simp [Global.outline, h]

theorem head?_valueSymbols_ne (value : Option Expr) :
    (valueSymbols value ++ mark ";" :: rest).head? ≠ some (mark ":") := by
  cases value <;> simp [valueSymbols, mark]

theorem accepts_variableGlobal (hexpression : AcceptsExpr expression 1 n) {x : String} {type : Option String}
    {value : Option Expr} (hx : IsName x) (htype : ∀ t ∈ type, IsName t) (hvalue : ∀ e ∈ value, e.WellFormed)
    (hsize : (valueSymbols value).length ≤ n) (node : Node) :
    Accepts (variableGlobal expression node) (ident x :: (typeSymbols type ++ valueSymbols value)) (mark ";" :: rest)
      (·.outline = ⟨.blank, x, true, type, value.map Expr.outline⟩) := by
  refine Accepts.identifier_bind hx (Accepts.bind (accepts_typeName? htype (head?_valueSymbols_ne value)) ?_)
  rintro _ rfl
  refine Accepts.bind_nil (accepts_initializer? hexpression hvalue hsize rfl) fun v hv => accepts_pure ?_
  simp [Global.outline, hv]

theorem accepts_constantGlobal (hexpression : AcceptsExpr expression 1 n) {x : String} {type : Option String} {e : Expr}
    (hx : IsName x) (htype : ∀ t ∈ type, IsName t) (hwf : e.WellFormed) (hsize : e.symbols.length ≤ n) (node : Node) :
    Accepts (constantGlobal expression node) (ident "VAL" :: ident x :: (typeSymbols type ++ valueSymbols (some e)))
      (mark ";" :: rest) (·.outline = ⟨.blank, x, false, type, some e.outline⟩) := by
  refine Accepts.expect_bind (fixed_word (by decide)) (Accepts.identifier_bind hx ?_)
  refine Accepts.bind (accepts_typeName? htype (head?_valueSymbols_ne _)) ?_
  rintro _ rfl
  apply Accepts.expect_bind (fixed_mark (by decide))
  refine Accepts.bind_nil (hexpression e hsize hwf e.level_pos _ (stops_mark (by decide) _))
    fun e' h => accepts_pure ?_
  simp [Global.outline, h]

/-- Up to its semicolon a global is read as its first word tells. -/
theorem accepts_globalBody (hexpression : AcceptsExpr expression 1 n) {g : Global} (hwf : g.WellFormed)
    (hsize : (valueSymbols g.value).length ≤ n) (node : Node) :
    Accepts (globalBody expression n node)
      (ident g.keyword :: ident g.name :: (typeSymbols g.type ++ valueSymbols g.value)) (mark ";" :: rest)
      (·.outline = g.outline) := by
  obtain ⟨place, x, isMutable, type, value⟩ := g
  obtain ⟨hx, htype, hvalue⟩ := hwf
  -- A list as value makes it a `LIST`; otherwise mutability tells `VAR` from `VAL`.
  obtain ⟨t, node', elements, rfl, rfl, rfl, hne, helements⟩ | ⟨hlist, hplain, hconstant⟩ := hvalue.cases
  · have hlength : (commas (elements.map Expr.symbols)).length ≤ n := by
      simp [valueSymbols, Expr.symbols] at hsize
      omega
    apply Accepts.eat (fixed_word (by decide))
    rw [show (Global.outline ⟨place, x, true, some t, some (.list node' elements)⟩) =
      ⟨.blank, x, true, some t, some (.list .blank (elements.map Expr.outline))⟩ by simp [Global.outline, Expr.outline]]
    simp only [typeSymbols, valueSymbols, Expr.symbols, Expr.allSymbols_eq, List.cons_append, List.nil_append]
    exact accepts_listGlobal hexpression hx (htype t rfl) hne ((Expr.allWellFormed_iff _).mp helements) hlength node
  · rw [Global.keyword_of_isList hlist]
    cases isMutable with
    | true =>
      apply Accepts.not_eat_word (by decide) (by simp)
      apply Accepts.eat (fixed_word (by decide))
      exact accepts_variableGlobal hexpression hx htype hplain hsize node
    | false =>
      cases value with
      | none => exact absurd (hconstant rfl) Bool.false_ne_true
      | some e =>
        have hlength : e.symbols.length ≤ n := by
          simp [valueSymbols] at hsize
          omega
        apply Accepts.not_eat_word (by decide) (by simp)
        apply Accepts.not_eat_word (by decide) (by simp)
        exact accepts_constantGlobal hexpression hx htype (hplain e rfl) hlength node

theorem accepts_globalOf (hexpression : AcceptsExpr expression 1 n) {g : Global} (hwf : g.WellFormed)
    (hsize : g.symbols.length ≤ n) : Accepts (globalOf expression n) g.symbols rest (·.outline = g.outline) := by
  have hsymbols : g.symbols =
      (ident g.keyword :: ident g.name :: (typeSymbols g.type ++ valueSymbols g.value)) ++ [mark ";"] := by
    simp [Global.symbols]
  have hlength : (valueSymbols g.value).length ≤ n := by
    rw [hsymbols] at hsize
    simp only [List.length_cons, List.length_append] at hsize
    omega
  rw [hsymbols]
  refine Accepts.offset_bind fun start => Accepts.freshId_bind fun id => ?_
  apply Accepts.bind (accepts_globalBody hexpression hwf hlength _)
  intro g' h
  exact Accepts.expect_bind (fixed_mark (by decide)) (accepts_pure h)

end Globals

/-! ## §9 Functions and programs -/

theorem accepts_parameter {p : Parameter} (hname : IsName p.name) (htype : IsName p.type) :
    Accepts parameter p.symbols rest (·.outline = p.outline) := by
  refine Accepts.freshId_bind fun id => Accepts.offset_bind fun start => Accepts.identifier_bind hname ?_
  refine Accepts.expect_bind (fixed_mark (by decide)) ?_
  exact Accepts.identifier_bind htype (accepts_pure rfl)

theorem accepts_functionOf {statement : Reader Statement} (hstatement : AcceptsStatement statement n) {f : Function}
    (hwf : f.WellFormed) (hsize : f.symbols.length ≤ n) :
    Accepts (functionOf statement n) f.symbols rest (·.outline = f.outline) := by
  obtain ⟨node, x, parameters, returns, body⟩ := f
  obtain ⟨hname, hparameters, hreturns, hne, hbody⟩ := hwf
  have hsymbols : Function.symbols ⟨node, x, parameters, returns, body⟩ = ident "FUN" :: ident x :: mark "(" ::
      ((commas (parameters.map Parameter.symbols) ++ [mark ")"]) ++
        (typeSymbols returns ++ (ident "DO" :: (blockSymbols body ++ [ident "END"])))) := by
    simp [Function.symbols]
  have hlength : (commas (parameters.map Parameter.symbols)).length ≤ n ∧ (blockSymbols body).length < n := by
    rw [hsymbols] at hsize
    simp only [List.length_cons, List.length_append] at hsize
    omega
  rw [hsymbols]
  refine Accepts.offset_bind fun start => Accepts.freshId_bind fun id => ?_
  refine Accepts.expect_bind (fixed_word (by decide)) (Accepts.identifier_bind hname ?_)
  apply Accepts.expect_bind (fixed_mark (by decide))
  have hitems : Accepts (commaSeparated parameter ")" n) (commas (parameters.map Parameter.symbols) ++ [mark ")"])
      ((typeSymbols returns ++ (ident "DO" :: (blockSymbols body ++ [ident "END"]))) ++ rest)
      (·.map Parameter.outline = parameters.map Parameter.outline) := by
    refine accepts_commaSeparated (by decide) (by decide) (fun p hp later _ => ?_) (fun p hp later => ?_) ?_
    · exact accepts_parameter (hparameters p hp).1 (hparameters p hp).2
    · simp [Parameter.symbols, ident, mark]
    · exact (length_le_length_commas fun p _ => by simp [Parameter.symbols]).trans hlength.1
  apply Accepts.bind hitems
  intro parameters' hp
  apply Accepts.bind (accepts_typeName? hreturns (by simp [ident, mark]))
  rintro _ rfl
  apply Accepts.expect_bind (fixed_word (by decide))
  apply Accepts.bind (accepts_block hstatement hne ((allWellFormed_iff _).mp hbody) hlength.2
    ⟨by decide, "END", by decide, rfl⟩)
  intro body' hb
  refine Accepts.expect_bind (fixed_word (by decide)) (accepts_pure ?_)
  simp [Function.outline, hp, hb]

/-- A program is read if nothing follows it. -/
theorem accepts_programOf {global : Reader Global} {function : Reader Function} {p : Program} (hwf : p.WellFormed)
    (hglobal : ∀ g ∈ p.globals, ∀ later, Accepts global g.symbols later (·.outline = g.outline))
    (hfunction : ∀ f ∈ p.functions, ∀ later, Accepts function f.symbols later (·.outline = f.outline))
    (hsize : p.symbols.length ≤ n) : Accepts (programOf global function n) p.symbols [] (·.outline = p.outline) := by
  have hword (g : Global) : g.keyword = "LIST" ∨ g.keyword = "VAR" ∨ g.keyword = "VAL" := by
    unfold Global.keyword
    split_ifs <;> simp
  -- Every global and every function has symbols, so the bound is large enough.
  have hlength : p.globals.length ≤ n ∧ p.functions.length ≤ n := by
    rw [Program.symbols, List.length_append] at hsize
    have hglobals : p.globals.length ≤ (p.globals.flatMap Global.symbols).length :=
      length_le_length_flatMap fun g _ => by simp [Global.symbols]
    have hfunctions : p.functions.length ≤ (p.functions.flatMap Function.symbols).length :=
      length_le_length_flatMap fun f _ => by simp [Function.symbols]
    omega
  have hglobals : Accepts (many (·.peekOneOf ["LIST", "VAR", "VAL"]) global n) (p.globals.flatMap Global.symbols)
      (p.functions.flatMap Function.symbols ++ []) (·.map Global.outline = p.globals.map Global.outline) := by
    refine accepts_many (fun _ => True) (fun g hg later _ => hglobal g hg later) trivial (fun _ _ _ => trivial) ?_ ?_
      hlength.1
    · intro g hg s hs later hsymbols
      rw [peekOneOf_eq, List.any_eq_true]
      refine ⟨g.keyword, ?_, ?_⟩
      · rcases hword g with h | h | h <;> simp [h]
      · rw [hs.peek_word (by rcases hword g with h | h | h <;> rw [h] <;> decide), hsymbols]
        simp [Global.symbols]
    · intro s hs hsymbols
      rw [peekOneOf_eq, List.any_eq_false]
      intro word hmem
      have hall : ∀ word ∈ ["LIST", "VAR", "VAL"], word ∈ keywords ∧ "FUN" ≠ word := by decide
      obtain ⟨f, more, heq⟩ := List.exists_cons_of_ne_nil hwf.nonempty
      rw [hs.peek_word (hall word hmem).1, hsymbols, heq]
      simpa [Function.symbols, ident] using (hall word hmem).2
  have hfunctions : Accepts (many (·.peek "FUN") function n) (p.functions.flatMap Function.symbols) []
      (·.map Function.outline = p.functions.map Function.outline) := by
    refine accepts_many (fun _ => True) (fun f hf later _ => hfunction f hf later) trivial (fun _ _ _ => trivial) ?_ ?_
      hlength.2
    · intro f hf s hs later hsymbols
      rw [hs.peek_word (by decide), hsymbols]
      simp [Function.symbols]
    · intro s hs hsymbols
      rw [hs.peek_word (by decide), hsymbols]
      simp
  refine Accepts.bind hglobals fun globals hg => Accepts.bind_nil hfunctions fun functions hf => ?_
  apply Accepts.get_bind
  intro s hs hsymbols
  -- No symbols are left, so no token is.
  have hnone : s.current.isSome = false := by
    have hrest : s.rest = [] := List.map_eq_nil_iff.mp hsymbols
    simp [ReaderState.current, hrest]
  have hnonempty : functions.isEmpty = false := by
    cases functions with
    | nil => exact absurd (List.map_eq_nil_iff.mp hf.symm) hwf.nonempty
    | cons f fs => rfl
  rw [hnone, hnonempty]
  apply accepts_pure
  simp [Program.outline, hg, hf]

theorem accepts_program {p : Program} (hwf : p.WellFormed) : Accepts program p.symbols [] (·.outline = p.outline) := by
  apply Accepts.get_bind
  intro s hs hsymbols
  have hsize : p.symbols.length ≤ s.rest.length + 1 := by
    have hlength := congrArg List.length hsymbols
    simp [ReaderState.symbols] at hlength
    omega
  rw [Program.symbols, List.length_append] at hsize
  refine accepts_programOf hwf (fun g hg later => ?_) (fun f hf later => ?_) ?_
  · have hg' := length_le_of_mem (f := Global.symbols) hg
    exact accepts_globalOf (accepts_expressionWithin _) (hwf.globals g hg) (by omega)
  · have hf' := length_le_of_mem (f := Function.symbols) hf
    exact accepts_functionOf (accepts_statementWithin _) (hwf.functions f hf) (by omega)
  · rw [Program.symbols, List.length_append]
    exact hsize

end Reader

/-- Tokens that write a program are parsed as this program. -/
theorem parse_of_symbols {ts : List Token} {p : Program} (hts : ∀ t ∈ ts, t.Readable) (hwf : p.WellFormed)
    (h : ts.map Token.symbol = p.symbols) : ∃ p', parse ts = .ok p' ∧ p'.outline = p.outline := by
  obtain ⟨p', t, hread, houtline, -, -⟩ :=
    Reader.accepts_program hwf (ReaderState.ofTokens ts) hts (by rw [List.append_nil]; exact h)
  refine ⟨p', ?_, houtline⟩
  unfold parse Reader.parse EStateM.run
  rw [hread]

end BlockLang
