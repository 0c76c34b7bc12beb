import BlockLang.Proofs.Grammar.Completeness
import BlockLang.Proofs.Grammar.Productions
import BlockLang.Proofs.Grammar.Soundness
import BlockLang.Proofs.Token.Spelling

/-!
# The language of the grammar

The tokens that derive from a rule of the grammar are those that write a tree of the kind the rule stands for.  One
direction is an induction on the tree, the other one an induction on the derivation; what a derivation means is defined
along its form, so that each rule needs a lemma about its own production alone.

## Layers

- `Writes`: forms from which every token sequence with given symbols derives.
- `Meaning`: the symbols of what derives from a form.

## Main statement

- `parse_iff_derives`: scanned tokens are parsed exactly if they derive from the first rule.
-/

namespace BlockLang

open BlockLang.Symbol

namespace Ebnf

/-! ## §1 From trees to derivations -/

/-- Every token sequence with these symbols derives from the form. -/
def Writes (f : Form) (a : List Symbol) : Prop :=
  ∀ ts : List Token, ts.map Token.symbol = a → Derives f ts

section Writes

variable {f g : Form} {a b : List Symbol} {symbol : Symbol} {x : String} {r : Rule}

theorem writes_singleton (h : ∀ t : Token, t.symbol = symbol → Derives f [t]) : Writes f [symbol] := by
  intro ts hts
  obtain ⟨t, more, rfl, ht, hmore⟩ := List.map_eq_cons_iff.mp hts
  obtain rfl := List.map_eq_nil_iff.mp hmore
  exact h t ht

theorem writes_word (kind : TokenKind) (x : String) : Writes (.text x) [.word kind x] :=
  writes_singleton fun _ ht => .text (Token.symbol_eq_word ht).2

theorem writes_identifier (hx : IsName x) : Writes .identifier [ident x] := by
  apply writes_singleton
  intro t ht
  obtain ⟨hkind, rfl⟩ := Token.symbol_eq_word ht
  exact .identifier hkind hx.2

theorem writes_literal (value : Literal) : Writes (.kind value.spell.1) [.literal value] :=
  writes_singleton fun _ ht => .kind (kind_of_literalOf? (Reader.literalOf?_of_symbol ht))

theorem writes_empty : Writes .empty [] := by
  intro ts hts
  obtain rfl := List.map_eq_nil_iff.mp hts
  exact .empty

theorem writes_none : Writes (.many f) [] := by
  intro ts hts
  obtain rfl := List.map_eq_nil_iff.mp hts
  exact .stop

theorem Writes.rule (h : Writes (production r) a) : Writes (.rule r) a :=
  fun ts hts => .rule (h ts hts)

theorem Writes.first (h : Writes f a) : Writes (.alt f g) a :=
  fun ts hts => .first (h ts hts)

theorem Writes.second (h : Writes g a) : Writes (.alt f g) a :=
  fun ts hts => .second (h ts hts)

theorem Writes.seq (hf : Writes f a) (hg : Writes g b) : Writes (.seq f g) (a ++ b) := by
  intro ts hts
  obtain ⟨us, vs, rfl, hus, hvs⟩ := List.map_eq_append_iff.mp hts
  exact .seq (hf us hus) (hg vs hvs)

theorem Writes.cons (hf : Writes f [symbol]) (hg : Writes g b) : Writes (.seq f g) (symbol :: b) :=
  hf.seq hg

section Sequences

variable {α : Type} {xs : List α} {symbols : α → List Symbol}

theorem Writes.many (h : ∀ x ∈ xs, Writes f (symbols x)) : Writes (.many f) (xs.flatMap symbols) := by
  induction xs with
  | nil => exact writes_none
  | cons x rest ih =>
    intro ts hts
    obtain ⟨us, vs, rfl, hus, hvs⟩ := List.map_eq_append_iff.mp hts
    exact .more (h x (List.mem_cons_self ..) us hus) (ih (fun y hy => h y (List.mem_cons_of_mem _ hy)) vs hvs)

theorem Writes.some (hne : xs ≠ []) (h : ∀ x ∈ xs, Writes f (symbols x)) : Writes f.some (xs.flatMap symbols) := by
  obtain ⟨x, rest, rfl⟩ := List.exists_cons_of_ne_nil hne
  exact Writes.seq (h x (List.mem_cons_self ..)) (Writes.many fun y hy => h y (List.mem_cons_of_mem _ hy))

theorem Writes.separated (hne : xs ≠ []) (h : ∀ x ∈ xs, Writes f (symbols x)) :
    Writes f.separated (commas (xs.map symbols)) := by
  obtain ⟨x, rest, rfl⟩ := List.exists_cons_of_ne_nil hne
  rw [List.map_cons, commas, List.flatMap_map]
  refine Writes.seq (h x (List.mem_cons_self ..)) (Writes.many fun y hy => ?_)
  exact Writes.cons (writes_word _ _) (h y (List.mem_cons_of_mem _ hy))

theorem Writes.optional_separated (h : ∀ x ∈ xs, Writes f (symbols x)) :
    Writes (Form.optional f.separated) (commas (xs.map symbols)) := by
  cases xs with
  | nil => exact Writes.second writes_empty
  | cons x rest => exact Writes.first (Writes.separated (List.cons_ne_nil _ _) h)

end Sequences

/-- The rule whose operators have some level; 5 is the level of primary expressions. -/
def levelRule : Nat → Rule
  | 1 => .logical
  | 2 => .comparison
  | 3 => .additive
  | 4 => .multiplicative
  | _ => .primary

/-- The operators of one level, as its production lists them. -/
theorem production_levelRule {level : Nat} (h : 1 ≤ level) (h' : level ≤ 4) : ∃ first others,
    production (levelRule level) = operands (levelRule (level + 1)) first others ∧
      ∀ op : Operator, op.level = level ↔ op.symbol ∈ first :: others := by
  have hlevel : level = 1 ∨ level = 2 ∨ level = 3 ∨ level = 4 := by omega
  rcases hlevel with rfl | rfl | rfl | rfl
  · exact ⟨"&&", ["||"], rfl, fun op => by cases op <;> decide⟩
  · exact ⟨"==", ["!=", "<", ">"], rfl, fun op => by cases op <;> decide⟩
  · exact ⟨"+", ["-"], rfl, fun op => by cases op <;> decide⟩
  · exact ⟨"*", ["/", "^"], rfl, fun op => by cases op <;> decide⟩

theorem writes_oneOf {first : String} {others : List String} (h : x ∈ first :: others) (kind : TokenKind) :
    Writes (Form.oneOf (.text first) (others.map .text)) [.word kind x] := by
  induction others generalizing first with
  | nil =>
    obtain rfl : x = first := by simpa using h
    exact writes_word kind x
  | cons next rest ih =>
    rcases List.mem_cons.mp h with rfl | h
    · exact Writes.first (writes_word kind x)
    · exact Writes.second (ih h)

/-- What derives from a level derives from every more general one. -/
theorem Writes.level {l m : Nat} (hl : 1 ≤ l) (hle : l ≤ m) (hm : m ≤ 5) (h : Writes (.rule (levelRule m)) a) :
    Writes (.rule (levelRule l)) a := by
  induction hle using Nat.decreasingInduction with
  | self => exact h
  | of_succ k hk ih =>
    obtain ⟨first, others, hproduction, -⟩ := production_levelRule hl (by omega)
    apply Writes.rule
    rw [hproduction, ← List.append_nil a]
    exact Writes.seq (ih (by omega)) writes_none

theorem Derives.many_snoc {ts us : List Token} (h : Derives (.many f) ts) (hlast : Derives f us) :
    Derives (.many f) (ts ++ us) := by
  generalize hform : Form.many f = form at h
  induction h with
  | stop =>
    obtain rfl := Form.many.inj hform
    rw [List.nil_append, ← List.append_nil us]
    exact .more hlast .stop
  | more ha hmany iha ihmany =>
    obtain rfl := Form.many.inj hform
    rw [List.append_assoc]
    exact .more ha (ihmany rfl)
  | _ => exact Form.noConfusion hform

/-- One more operand of a level. -/
theorem Writes.snoc_operand {level : Nat} {op : Operator} (hlevel : op.level = level)
    (ha : Writes (.rule (levelRule level)) a) (hb : Writes (.rule (levelRule (level + 1))) b) :
    Writes (.rule (levelRule level)) (a ++ mark op.symbol :: b) := by
  have hbounds : 1 ≤ level ∧ level ≤ 4 := by
    rw [← hlevel]
    cases op <;> decide
  obtain ⟨first, others, hproduction, hop⟩ := production_levelRule hbounds.1 hbounds.2
  intro ts hts
  obtain ⟨us, vs, rfl, hus, hvs⟩ := List.map_eq_append_iff.mp hts
  have hlast := Writes.cons (writes_oneOf ((hop op).mp hlevel) .operator) hb vs hvs
  -- The operands before the last one derive from the same production.
  have hleft := ha us hus
  cases hleft with
  | rule h =>
    rw [hproduction] at h
    cases h with
    | seq hfirst hmany =>
      refine .rule ?_
      rw [hproduction, List.append_assoc]
      exact .seq hfirst (Derives.many_snoc hmany hlast)

theorem Expr.level_le (e : Expr) : e.level ≤ 5 := by
  cases e with
  | binary node op left right => cases op <;> simp [Expr.level, Operator.level]
  | _ => simp [Expr.level]

theorem writes_expression {e : Expr} (h : Writes (.rule (levelRule e.level)) e.symbols) :
    Writes (.rule .expression) e.symbols :=
  Writes.rule (Writes.level le_rfl e.level_pos (Expr.level_le e) h)

/-- The alternatives of a primary expression. -/
theorem writes_constant {value : Literal} (h : ∃ word ∈ ["NIL", "TRUE", "FALSE"], value.symbol = ident word) :
    Writes (.rule .primary) [value.symbol] := by
  obtain ⟨word, hmem, heq⟩ := h
  rw [heq]
  apply Writes.rule
  simp only [List.mem_cons, List.not_mem_nil, or_false] at hmem
  rcases hmem with rfl | rfl | rfl
  · exact Writes.first (writes_word _ _)
  · exact Writes.second (Writes.first (writes_word _ _))
  · exact Writes.second (Writes.second (Writes.first (writes_word _ _)))

theorem writes_primary_literal (value : Literal) : Writes (.rule .primary) [value.symbol] := by
  cases value with
  | nil => exact writes_constant ⟨"NIL", by decide, rfl⟩
  | boolean b =>
    cases b with
    | true => exact writes_constant ⟨"TRUE", by decide, rfl⟩
    | false => exact writes_constant ⟨"FALSE", by decide, rfl⟩
  | integer z =>
    exact Writes.rule (Writes.second (Writes.second (Writes.second (Writes.first (writes_literal (.integer z))))))
  | decimal d =>
    exact Writes.rule (Writes.second (Writes.second (Writes.second (Writes.second (Writes.first
      (writes_literal (.decimal d)))))))
  | character c =>
    exact Writes.rule (Writes.second (Writes.second (Writes.second (Writes.second (Writes.second (Writes.first
      (writes_literal (.character c))))))))
  | string x =>
    exact Writes.rule (Writes.second (Writes.second (Writes.second (Writes.second (Writes.second (Writes.second
      (Writes.first (writes_literal (.string x)))))))))

/-- Past the literals a primary expression has three alternatives. -/
theorem Writes.primary (h : Writes (Form.oneOf (Form.row [.text "(", .rule .expression, .text ")"])
    [Form.row [.identifier, Form.optional (Form.row [.text "(", Form.optional (Form.separated (.rule .expression)),
      .text ")"])], Form.row [.identifier, .text "[", .rule .expression, .text "]"]]) a) : Writes (.rule .primary) a :=
  Writes.rule (Writes.second (Writes.second (Writes.second (Writes.second (Writes.second (Writes.second
    (Writes.second h)))))))

mutual

/-- An expression derives from the rule of its outermost operator. -/
theorem Expr.writes : ∀ e : Expr, e.WellFormed → Writes (.rule (levelRule e.level)) e.symbols
  | .literal _ value, _ => writes_primary_literal value
  | .group _ inner, h => by
    have hinner : inner.WellFormed := h
    have hwrites := writes_expression (Expr.writes inner hinner)
    exact Writes.primary (Writes.first (Writes.cons (writes_word _ _) (hwrites.seq (writes_word _ _))))
  | .binary _ op left right, ⟨hleft, hright, hl, hr⟩ => by
    have hop : 1 ≤ op.level := by cases op <;> decide
    have hbefore := Writes.level hop hleft (Expr.level_le left) (Expr.writes left hl)
    have hafter := Writes.level (Nat.le_add_left 1 op.level) hright (Expr.level_le right) (Expr.writes right hr)
    exact Writes.snoc_operand rfl hbefore hafter
  | .variable _ x, h => by
    refine Writes.primary (Writes.second (Writes.first ?_))
    exact Writes.cons (writes_identifier h) (Writes.second writes_empty)
  | .element _ x index, h => by
    have hwrites := writes_expression (Expr.writes index h.2)
    refine Writes.primary (Writes.second (Writes.second ?_))
    exact Writes.cons (writes_identifier h.1) (Writes.cons (writes_word _ _) (hwrites.seq (writes_word _ _)))
  | .call _ x arguments, h => by
    have hall := Expr.allWrites arguments h.2
    have hwrites := Writes.optional_separated hall
    rw [Expr.symbols, Expr.allSymbols_eq]
    refine Writes.primary (Writes.second (Writes.first (Writes.cons (writes_identifier h.1) (Writes.first ?_))))
    exact Writes.cons (writes_word _ _) (hwrites.seq (writes_word _ _))
  | .list _ elements, h => h.elim

theorem Expr.allWrites : ∀ es : List Expr, Expr.AllWellFormed es → ∀ e ∈ es, Writes (.rule .expression) e.symbols
  | [], _ => by simp
  | e :: rest, h =>
    List.forall_mem_cons.mpr ⟨writes_expression (Expr.writes e h.1), Expr.allWrites rest h.2⟩

end

theorem writes_of_wellFormed {e : Expr} (h : e.WellFormed) : Writes (.rule .expression) e.symbols :=
  writes_expression (Expr.writes e h)

theorem writes_typing {type : Option String} (h : ∀ t ∈ type, IsName t) : Writes typing (typeSymbols type) := by
  cases type with
  | none => exact Writes.second writes_empty
  | some t => exact Writes.first (Writes.cons (writes_word _ _) (writes_identifier (h t rfl)))

theorem writes_initial {value : Option Expr} (h : ∀ e ∈ value, e.WellFormed) :
    Writes initial (valueSymbols value) := by
  cases value with
  | none => exact Writes.second writes_empty
  | some e => exact Writes.first (Writes.cons (writes_word _ _) (writes_of_wellFormed (h e rfl)))

theorem writes_block {body : List Statement} (hne : body ≠ [])
    (h : ∀ x ∈ body, Writes (.rule .statement) x.symbols) : Writes (.rule .block) (blockSymbols body) := by
  rw [blockSymbols_eq]
  exact Writes.rule (Writes.some hne h)

/-- One more phrase before those that derive already. -/
theorem Writes.prepend (ha : Writes f a) (hb : Writes (.seq (.many f) g) b) : Writes (.seq (.many f) g) (a ++ b) := by
  intro ts hts
  obtain ⟨us, vs, rfl, hus, hvs⟩ := List.map_eq_append_iff.mp hts
  have hlater := hb vs hvs
  cases hlater with
  | seq hmany hg =>
    rw [← List.append_assoc]
    exact .seq (.more (ha us hus) hmany) hg

/-- An arm with a value. -/
def valueArm : Form := Form.row [.text "CASE", .rule .expression, .text ":", .rule .block]

/-- The default arm and the end of a switch. -/
def defaultArm : Form := Form.row [.text "DEFAULT", .rule .block, .text "END"]

mutual

/-- A statement derives from the alternative for its kind. -/
theorem Statement.writes : ∀ x : Statement, x.WellFormed → Writes (.rule .statement) x.symbols
  | .declaration _ x type value, ⟨hx, htype, hvalue⟩ => by
    have htail := (writes_typing htype).seq ((writes_initial hvalue).seq (writes_word .operator ";"))
    rw [Statement.symbols, List.cons_append, List.cons_append, List.append_assoc]
    exact Writes.rule (Writes.first (Writes.cons (writes_word _ _) (Writes.cons (writes_identifier hx) htail)))
  | .switch _ condition cases, ⟨hcondition, hcases⟩ => by
    rw [Statement.symbols, List.append_assoc]
    refine Writes.rule (Writes.second (Writes.first (Writes.cons (writes_word _ _) ?_)))
    exact (writes_of_wellFormed hcondition).seq (arms_writes cases hcases)
  | .conditional _ condition onTrue onFalse, ⟨hcondition, hne, htrue, hfalse⟩ => by
    have hthen := writes_block hne (block_writes onTrue htrue)
    have helse : Writes (Form.optional (Form.row [.text "ELSE", .rule .block]))
        (if onFalse.isEmpty then [] else ident "ELSE" :: blockSymbols onFalse) := by
      split_ifs with hempty
      · exact Writes.second writes_empty
      · have hne' : onFalse ≠ [] := by simpa using hempty
        exact Writes.first (Writes.cons (writes_word _ _) (writes_block hne' (block_writes onFalse hfalse)))
    have htail := hthen.seq (helse.seq (writes_word .identifier "END"))
    rw [Statement.symbols, List.append_assoc, List.cons_append, List.cons_append, List.append_assoc, List.cons_append]
    refine Writes.rule (Writes.second (Writes.second (Writes.first (Writes.cons (writes_word _ _) ?_))))
    exact (writes_of_wellFormed hcondition).seq (Writes.cons (writes_word _ _) htail)
  | .loop _ condition body, ⟨hcondition, hne, hbody⟩ => by
    have htail := (writes_block hne (block_writes body hbody)).seq (writes_word .identifier "END")
    rw [Statement.symbols, List.append_assoc, List.cons_append]
    refine Writes.rule (Writes.second (Writes.second (Writes.second (Writes.first (Writes.cons (writes_word _ _) ?_)))))
    exact (writes_of_wellFormed hcondition).seq (Writes.cons (writes_word _ _) htail)
  | .returning _ value, h => by
    have hvalue : value.WellFormed := h
    refine Writes.rule (Writes.second (Writes.second (Writes.second (Writes.second (Writes.first ?_)))))
    exact Writes.cons (writes_word _ _) ((writes_of_wellFormed hvalue).seq (writes_word _ _))
  | .expression _ value, h => by
    have hvalue : value.WellFormed := h
    refine Writes.rule (Writes.second (Writes.second (Writes.second (Writes.second (Writes.second ?_)))))
    exact (writes_of_wellFormed hvalue).seq (Writes.seq (Writes.second writes_empty) (writes_word _ _))
  | .assignment _ receiver value, ⟨hreceiver, hvalue⟩ => by
    have hinitial : Writes initial (valueSymbols (some value)) := writes_initial (by simpa using hvalue)
    rw [Statement.symbols, List.append_assoc, List.cons_append]
    refine Writes.rule (Writes.second (Writes.second (Writes.second (Writes.second (Writes.second ?_)))))
    exact (writes_of_wellFormed hreceiver).seq (hinitial.seq (writes_word _ _))

theorem block_writes : ∀ body : List Statement, AllWellFormed body → ∀ x ∈ body, Writes (.rule .statement) x.symbols
  | [], _ => by simp
  | first :: rest, h => List.forall_mem_cons.mpr ⟨Statement.writes first h.1, block_writes rest h.2⟩

theorem arms_writes : ∀ cases : List Case, ArmsWellFormed cases →
    Writes (.seq (.many valueArm) defaultArm) (armSymbols cases ++ [ident "END"])
  | [], h => h.elim
  | .mk _ none body :: rest, ⟨⟨_, hne, hbody⟩, hrest⟩ => by
    obtain rfl : rest = [] := by
      rcases hrest with ⟨hnil, -⟩ | ⟨hvalue, -⟩
      · exact hnil
      · exact absurd rfl hvalue
    have hblock := (writes_block hne (block_writes body hbody)).seq (writes_word .identifier "END")
    have hdefault := Writes.cons (writes_word .identifier "DEFAULT") hblock
    have hall : Writes (.seq (.many valueArm) defaultArm) ([] ++ _) := Writes.seq writes_none hdefault
    rw [armSymbols, armSymbols, List.append_nil]
    exact hall
  | .mk _ (some value) body :: rest, ⟨⟨hvalue, hne, hbody⟩, hrest⟩ => by
    have hrest : ArmsWellFormed rest := by
      rcases hrest with ⟨-, hnone⟩ | ⟨-, hrest⟩
      · exact absurd hnone (by simp [Case.value])
      · exact hrest
    have hblock := writes_block hne (block_writes body hbody)
    rw [armSymbols, List.append_assoc]
    refine Writes.prepend (Writes.cons (writes_word _ _) ?_) (arms_writes rest hrest)
    exact (writes_of_wellFormed (hvalue value rfl)).seq (Writes.cons (writes_word _ _) hblock)

end

theorem writes_global {g : Global} (h : g.WellFormed) : Writes (.rule .global) g.symbols := by
  obtain ⟨node, x, isMutable, type, value⟩ := g
  obtain ⟨hx, htype, hvalue⟩ := h
  apply Writes.rule
  rw [Global.symbols]
  refine Writes.seq ?_ (writes_word .operator ";")
  obtain ⟨t, node', elements, rfl, rfl, rfl, hne, helements⟩ | ⟨hlist, hplain, hconstant⟩ := hvalue.cases
  · have hitems := (Writes.separated hne (Expr.allWrites elements helements)).seq (writes_word .operator "]")
    refine Writes.first (Writes.rule (Writes.cons (writes_word _ _) (Writes.cons (writes_identifier hx) ?_)))
    rw [valueSymbols, Expr.symbols, Expr.allSymbols_eq]
    exact Writes.cons (writes_word _ _) (Writes.cons (writes_identifier (htype t rfl))
      (Writes.cons (writes_word _ _) (Writes.cons (writes_word _ _) hitems)))
  · rw [Global.keyword_of_isList hlist]
    cases isMutable with
    | true =>
      refine Writes.second (Writes.first (Writes.rule (Writes.cons (writes_word _ _) ?_)))
      exact Writes.cons (writes_identifier hx) ((writes_typing htype).seq (writes_initial hplain))
    | false =>
      cases value with
      | none => exact absurd (hconstant rfl) Bool.false_ne_true
      | some e =>
        have he := writes_of_wellFormed (hplain e rfl)
        refine Writes.second (Writes.second (Writes.rule (Writes.cons (writes_word _ _) ?_)))
        exact Writes.cons (writes_identifier hx) ((writes_typing htype).seq (Writes.cons (writes_word _ _) he))

theorem writes_function {f : Function} (h : f.WellFormed) : Writes (.rule .function) f.symbols := by
  obtain ⟨hname, hparameters, hreturns, hne, hbody⟩ := h
  have hitems : Writes (Form.optional (Form.separated (Form.row [.identifier, .text ":", .identifier])))
      (commas (f.parameters.map Parameter.symbols)) := by
    apply Writes.optional_separated
    intro p hp
    exact Writes.cons (writes_identifier (hparameters p hp).1)
      (Writes.cons (writes_word _ _) (writes_identifier (hparameters p hp).2))
  have hend := (writes_block hne (block_writes f.body hbody)).seq (writes_word .identifier "END")
  have htail := (writes_typing hreturns).seq (Writes.cons (writes_word .identifier "DO") hend)
  have hsymbols : f.symbols = ident "FUN" :: ident f.name :: mark "(" ::
      (commas (f.parameters.map Parameter.symbols) ++ (mark ")" ::
        (typeSymbols f.returns ++ (ident "DO" :: (blockSymbols f.body ++ [ident "END"]))))) := by
    simp [Function.symbols]
  rw [hsymbols]
  refine Writes.rule (Writes.cons (writes_word _ _) (Writes.cons (writes_identifier hname) ?_))
  exact Writes.cons (writes_word _ _) (hitems.seq (Writes.cons (writes_word _ _) htail))

/-- The tokens of a program derive from the first rule. -/
theorem writes_program {p : Program} (h : p.WellFormed) : Writes (.rule .source) p.symbols := by
  refine Writes.rule (Writes.seq (Writes.many fun g hg => writes_global (h.globals g hg)) ?_)
  exact Writes.some h.nonempty fun f hf => writes_function (h.functions f hf)

end Writes

/-! ## §2 From derivations to trees -/

/-- What derives from a rule: the written forms of trees of one kind.  A global is written with its semicolon. -/
def RuleMeaning : Rule → List Symbol → Prop
  | .source, a => ∃ p : Program, p.WellFormed ∧ a = p.symbols
  | .global, a => ∃ g : Global, g.WellFormed ∧ a = g.symbols
  | .list, a | .mutable, a | .immutable, a => ∃ g : Global, g.WellFormed ∧ a ++ [mark ";"] = g.symbols
  | .function, a => ∃ f : Function, f.WellFormed ∧ a = f.symbols
  | .block, a => ∃ body : List Statement, body ≠ [] ∧ AllWellFormed body ∧ a = blockSymbols body
  | .statement, a => ∃ x : Statement, x.WellFormed ∧ a = x.symbols
  | .expression, a => ∃ e : Expr, e.WellFormed ∧ a = e.symbols
  | .logical, a => ∃ e : Expr, e.WellFormed ∧ 1 ≤ e.level ∧ a = e.symbols
  | .comparison, a => ∃ e : Expr, e.WellFormed ∧ 2 ≤ e.level ∧ a = e.symbols
  | .additive, a => ∃ e : Expr, e.WellFormed ∧ 3 ≤ e.level ∧ a = e.symbols
  | .multiplicative, a => ∃ e : Expr, e.WellFormed ∧ 4 ≤ e.level ∧ a = e.symbols
  | .primary, a => ∃ e : Expr, e.WellFormed ∧ 5 ≤ e.level ∧ a = e.symbols

/-- The symbols of what derives from a form. -/
def Meaning : Form → List Symbol → Prop
  | .text x, a => (x ∈ marks ∧ a = [mark x]) ∨ (x ∈ keywords ∧ a = [ident x]) ∨ (x ∉ marks ∧ x ∉ keywords)
  | .identifier, a => ∃ x, IsName x ∧ a = [ident x]
  | .kind k, a => k ≠ .identifier ∧ k ≠ .operator → ∃ value : Literal, a = [value.symbol]
  | .rule r, a => RuleMeaning r a
  | .empty, a => a = []
  | .seq f g, a => ∃ b c, a = b ++ c ∧ Meaning f b ∧ Meaning g c
  | .alt f g, a => Meaning f a ∨ Meaning g a
  | .many f, a => ∃ parts : List (List Symbol), a = parts.flatten ∧ ∀ part ∈ parts, Meaning f part

section Meaning

variable {f g : Form} {a b : List Symbol} {x : String}

theorem meaning_mark (h : x ∈ marks) : Meaning (.text x) a ↔ a = [mark x] := by
  simp [Meaning, h, Token.not_mem_keywords_of_mem_marks h]

theorem meaning_word (h : x ∈ keywords) : Meaning (.text x) a ↔ a = [ident x] := by
  have h' : x ∉ marks := fun hmark => Token.not_mem_keywords_of_mem_marks hmark h
  simp [Meaning, h, h']

/-- Expressions between commas. -/
theorem exists_of_parts {α : Type} {P : List Symbol → Prop} {Q : α → Prop} {symbols : α → List Symbol}
    (h : ∀ a, P a → ∃ x, Q x ∧ a = symbols x) (parts : List (List Symbol)) (hparts : ∀ a ∈ parts, P a) :
    ∃ xs : List α, (∀ x ∈ xs, Q x) ∧ parts = xs.map symbols := by
  induction parts with
  | nil => exact ⟨[], by simp, rfl⟩
  | cons part rest ih =>
    obtain ⟨x, hx, rfl⟩ := h part (hparts part (List.mem_cons_self ..))
    obtain ⟨xs, hxs, rfl⟩ := ih fun a ha => hparts a (List.mem_cons_of_mem _ ha)
    exact ⟨x :: xs, List.forall_mem_cons.mpr ⟨hx, hxs⟩, rfl⟩

theorem meaning_many {α : Type} {Q : α → Prop} {symbols : α → List Symbol}
    (h : ∀ a, Meaning f a → ∃ x, Q x ∧ a = symbols x) (ha : Meaning (.many f) a) :
    ∃ xs : List α, (∀ x ∈ xs, Q x) ∧ a = xs.flatMap symbols := by
  obtain ⟨parts, rfl, hparts⟩ := ha
  obtain ⟨xs, hxs, rfl⟩ := exists_of_parts h parts hparts
  exact ⟨xs, hxs, rfl⟩

theorem meaning_some {α : Type} {Q : α → Prop} {symbols : α → List Symbol}
    (h : ∀ a, Meaning f a → ∃ x, Q x ∧ a = symbols x) (ha : Meaning f.some a) :
    ∃ xs : List α, xs ≠ [] ∧ (∀ x ∈ xs, Q x) ∧ a = xs.flatMap symbols := by
  obtain ⟨b, c, rfl, hb, hc⟩ := ha
  obtain ⟨x, hx, rfl⟩ := h b hb
  obtain ⟨xs, hxs, rfl⟩ := meaning_many h hc
  exact ⟨x :: xs, List.cons_ne_nil _ _, List.forall_mem_cons.mpr ⟨hx, hxs⟩, rfl⟩

theorem meaning_separated {α : Type} {Q : α → Prop} {symbols : α → List Symbol}
    (h : ∀ a, Meaning f a → ∃ x, Q x ∧ a = symbols x) (ha : Meaning f.separated a) :
    ∃ xs : List α, xs ≠ [] ∧ (∀ x ∈ xs, Q x) ∧ a = commas (xs.map symbols) := by
  obtain ⟨b, c, rfl, hb, hc⟩ := ha
  obtain ⟨x, hx, rfl⟩ := h b hb
  have hlater : ∀ a, Meaning (.seq (.text ",") f) a → ∃ x, Q x ∧ a = mark "," :: symbols x := by
    rintro a ⟨b, c, rfl, hb, hc⟩
    obtain rfl := (meaning_mark (by decide)).mp hb
    obtain ⟨x, hx, rfl⟩ := h c hc
    exact ⟨x, hx, rfl⟩
  obtain ⟨xs, hxs, rfl⟩ := meaning_many hlater hc
  refine ⟨x :: xs, List.cons_ne_nil _ _, List.forall_mem_cons.mpr ⟨hx, hxs⟩, ?_⟩
  rw [List.map_cons, commas, List.flatMap_map]

theorem meaning_optional_separated {α : Type} {Q : α → Prop} {symbols : α → List Symbol}
    (h : ∀ a, Meaning f a → ∃ x, Q x ∧ a = symbols x) (ha : Meaning (Form.optional f.separated) a) :
    ∃ xs : List α, (∀ x ∈ xs, Q x) ∧ a = commas (xs.map symbols) := by
  rcases ha with ha | rfl
  · obtain ⟨xs, -, hxs, rfl⟩ := meaning_separated h ha
    exact ⟨xs, hxs, rfl⟩
  · exact ⟨[], by simp, rfl⟩

theorem meaning_expression (ha : Meaning (.rule .expression) a) : ∃ e : Expr, e.WellFormed ∧ a = e.symbols := ha

theorem meaning_typing (ha : Meaning typing a) : ∃ type, (∀ t ∈ type, IsName t) ∧ a = typeSymbols type := by
  rcases ha with ⟨b, c, rfl, hb, x, hx, rfl⟩ | rfl
  · obtain rfl := (meaning_mark (by decide)).mp hb
    exact ⟨some x, by simpa using hx, rfl⟩
  · exact ⟨none, by simp, rfl⟩

theorem meaning_initial (ha : Meaning initial a) :
    ∃ value : Option Expr, (∀ e ∈ value, e.WellFormed) ∧ a = valueSymbols value := by
  rcases ha with ⟨b, c, rfl, hb, e, he, rfl⟩ | rfl
  · obtain rfl := (meaning_mark (by decide)).mp hb
    exact ⟨some e, by simpa using he, rfl⟩
  · exact ⟨none, by simp, rfl⟩

/-! ## §3 The productions -/

theorem meaning_oneOf {first : String} {others : List String}
    (ha : Meaning (Form.oneOf (.text first) (others.map .text)) a) :
    ∃ x ∈ first :: others, Meaning (.text x) a := by
  induction others generalizing first with
  | nil => exact ⟨first, List.mem_cons_self .., ha⟩
  | cons next rest ih =>
    rcases ha with ha | ha
    · exact ⟨first, List.mem_cons_self .., ha⟩
    · obtain ⟨x, hx, hmeaning⟩ := ih ha
      exact ⟨x, List.mem_cons_of_mem _ hx, hmeaning⟩

/-- Operands of one level fold into a tree from left to right. -/
theorem exists_of_operands {level : Nat} {operand : Rule} {first : String} {others : List String}
    (hops : ∀ x ∈ first :: others, ∃ op ∈ Operator.all, op.level = level ∧ op.symbol = x)
    (hoperand : ∀ a, RuleMeaning operand a → ∃ e : Expr, e.WellFormed ∧ level + 1 ≤ e.level ∧ a = e.symbols)
    (ha : Meaning (operands operand first others) a) :
    ∃ e : Expr, e.WellFormed ∧ level ≤ e.level ∧ a = e.symbols := by
  obtain ⟨b, c, rfl, hb, parts, rfl, hparts⟩ := ha
  obtain ⟨left, hleft, hlevel, rfl⟩ := hoperand b hb
  have hstart : level ≤ left.level := by omega
  clear hb hlevel
  -- The invariant: what has been read so far is a tree of this level.
  induction parts generalizing left with
  | nil => exact ⟨left, hleft, hstart, by simp⟩
  | cons part rest ih =>
    obtain ⟨d, e, rfl, hd, he⟩ := hparts part (List.mem_cons_self ..)
    obtain ⟨x, hx, hd⟩ := meaning_oneOf hd
    obtain ⟨op, -, rfl, rfl⟩ := hops x hx
    obtain rfl := (meaning_mark op.symbol_mem_marks).mp hd
    obtain ⟨right, hright, hlevel, rfl⟩ := hoperand e he
    have hwf : (Expr.binary .blank op left right).WellFormed := ⟨hstart, hlevel, hleft, hright⟩
    obtain ⟨tree, htree, hle, heq⟩ := ih (fun a ha => hparts a (List.mem_cons_of_mem _ ha)) _ hwf le_rfl
    refine ⟨tree, htree, hle, ?_⟩
    rw [← heq]
    simp [Expr.symbols]

theorem meaning_constant {word : String} (hword : word ∈ ["NIL", "TRUE", "FALSE"]) (ha : Meaning (.text word) a) :
    ∃ e : Expr, e.WellFormed ∧ 5 ≤ e.level ∧ a = e.symbols := by
  have hall : ∀ word ∈ ["NIL", "TRUE", "FALSE"], word ∈ keywords ∧
      ∃ value ∈ [Literal.nil, .boolean true, .boolean false], Literal.symbol value = ident word := by decide
  obtain ⟨hkeyword, value, -, hvalue⟩ := hall word hword
  obtain rfl := (meaning_word hkeyword).mp ha
  exact ⟨.literal .blank value, trivial, le_rfl, by rw [Expr.symbols, hvalue]⟩

theorem meaning_literal {k : TokenKind} (hk : k ≠ .identifier ∧ k ≠ .operator) (ha : Meaning (.kind k) a) :
    ∃ e : Expr, e.WellFormed ∧ 5 ≤ e.level ∧ a = e.symbols := by
  obtain ⟨value, rfl⟩ := ha hk
  exact ⟨.literal .blank value, trivial, le_rfl, rfl⟩

theorem meaning_primary (ha : Meaning (production .primary) a) : RuleMeaning .primary a := by
  rcases ha with ha | ha | ha | ha | ha | ha | ha | ha | ha | ha
  · exact meaning_constant (by decide) ha
  · exact meaning_constant (by decide) ha
  · exact meaning_constant (by decide) ha
  · exact meaning_literal (by decide) ha
  · exact meaning_literal (by decide) ha
  · exact meaning_literal (by decide) ha
  · exact meaning_literal (by decide) ha
  · obtain ⟨b, c, rfl, hb, d, e, rfl, ⟨inner, hinner, rfl⟩, he⟩ := ha
    obtain rfl := (meaning_mark (by decide)).mp hb
    obtain rfl := (meaning_mark (by decide)).mp he
    exact ⟨.group .blank inner, hinner, le_rfl, rfl⟩
  · obtain ⟨b, c, rfl, ⟨x, hx, rfl⟩, hc⟩ := ha
    rcases hc with ⟨d, e, rfl, hd, g, k, rfl, hg, hk⟩ | rfl
    · obtain rfl := (meaning_mark (by decide)).mp hd
      obtain rfl := (meaning_mark (by decide)).mp hk
      obtain ⟨arguments, harguments, rfl⟩ := meaning_optional_separated (fun a => meaning_expression) hg
      exact ⟨.call .blank x arguments, ⟨hx, (Expr.allWellFormed_iff _).mpr harguments⟩, le_rfl, by simp [Expr.symbols]⟩
    · exact ⟨.variable .blank x, hx, le_rfl, rfl⟩
  · obtain ⟨b, c, rfl, ⟨x, hx, rfl⟩, d, e, rfl, hd, g, k, rfl, ⟨index, hindex, rfl⟩, hk⟩ := ha
    obtain rfl := (meaning_mark (by decide)).mp hd
    obtain rfl := (meaning_mark (by decide)).mp hk
    exact ⟨.element .blank x index, ⟨hx, hindex⟩, le_rfl, by simp [Expr.symbols]⟩

theorem meaning_block (ha : Meaning (production .block) a) : RuleMeaning .block a := by
  have hstatement : ∀ a, Meaning (.rule .statement) a → ∃ x : Statement, x.WellFormed ∧ a = x.symbols := fun a ha => ha
  obtain ⟨body, hne, hbody, rfl⟩ := meaning_some hstatement ha
  exact ⟨body, hne, (allWellFormed_iff _).mpr hbody, by rw [blockSymbols_eq]⟩

theorem meaning_valueArm (ha : Meaning valueArm a) :
    ∃ arm : Case, (arm.WellFormed ∧ arm.value ≠ none) ∧ a = arm.symbols := by
  obtain ⟨b, c, rfl, hb, d, e, rfl, ⟨value, hvalue, rfl⟩, g, k, rfl, hg, body, hne, hbody, rfl⟩ := ha
  obtain rfl := (meaning_word (by decide)).mp hb
  obtain rfl := (meaning_mark (by decide)).mp hg
  exact ⟨.mk 0 (some value) body, ⟨⟨by simpa using hvalue, hne, hbody⟩, by simp [Case.value]⟩, by simp [Case.symbols]⟩

theorem meaning_statement (ha : Meaning (production .statement) a) : RuleMeaning .statement a := by
  -- The alternatives come in the order of the production, and in each the words and marks are known.
  rcases ha with ha | ha | ha | ha | ha | ha
  · obtain ⟨b, c, rfl, hb, d, e, rfl, ⟨x, hx, rfl⟩, g, k, rfl, hg, l, m, rfl, hl, hm⟩ := ha
    obtain rfl := (meaning_word (by decide)).mp hb
    obtain ⟨type, htype, rfl⟩ := meaning_typing hg
    obtain ⟨value, hvalue, rfl⟩ := meaning_initial hl
    obtain rfl := (meaning_mark (by decide)).mp hm
    exact ⟨.declaration .blank x type value, ⟨hx, htype, hvalue⟩, by simp [Statement.symbols]⟩
  · obtain ⟨b, c, rfl, hb, d, e, rfl, ⟨condition, hcondition, rfl⟩, g, k, rfl, hg, l, m, rfl, hl, o, q, rfl,
      ⟨body, hne, hbody, rfl⟩, hq⟩ := ha
    obtain rfl := (meaning_word (by decide)).mp hb
    obtain rfl := (meaning_word (by decide)).mp hl
    obtain rfl := (meaning_word (by decide)).mp hq
    obtain ⟨arms, harms, rfl⟩ := meaning_many (fun a => meaning_valueArm) hg
    refine ⟨.switch 0 condition (arms ++ [.mk 0 none body]), ⟨hcondition, (armsWellFormed_iff _).mpr ?_⟩, ?_⟩
    · exact ⟨arms, 0, body, rfl, hne, (allWellFormed_iff _).mp hbody, harms⟩
    · simp [Statement.symbols, Case.symbols]
  · obtain ⟨b, c, rfl, hb, d, e, rfl, ⟨condition, hcondition, rfl⟩, g, k, rfl, hg, l, m, rfl,
      ⟨body, hne, hbody, rfl⟩, o, q, rfl, ho, hq⟩ := ha
    obtain rfl := (meaning_word (by decide)).mp hb
    obtain rfl := (meaning_word (by decide)).mp hg
    obtain rfl := (meaning_word (by decide)).mp hq
    rcases ho with ⟨r, t, rfl, hr, onFalse, hne', hfalse, rfl⟩ | rfl
    · obtain rfl := (meaning_word (by decide)).mp hr
      exact ⟨.conditional 0 condition body onFalse, ⟨hcondition, hne, hbody, hfalse⟩, by simp [Statement.symbols, hne']⟩
    · exact ⟨.conditional 0 condition body [], ⟨hcondition, hne, hbody, trivial⟩, by simp [Statement.symbols]⟩
  · obtain ⟨b, c, rfl, hb, d, e, rfl, ⟨condition, hcondition, rfl⟩, g, k, rfl, hg, l, m, rfl,
      ⟨body, hne, hbody, rfl⟩, hm⟩ := ha
    obtain rfl := (meaning_word (by decide)).mp hb
    obtain rfl := (meaning_word (by decide)).mp hg
    obtain rfl := (meaning_word (by decide)).mp hm
    exact ⟨.loop 0 condition body, ⟨hcondition, hne, hbody⟩, by simp [Statement.symbols]⟩
  · obtain ⟨b, c, rfl, hb, d, e, rfl, ⟨value, hvalue, rfl⟩, he⟩ := ha
    obtain rfl := (meaning_word (by decide)).mp hb
    obtain rfl := (meaning_mark (by decide)).mp he
    exact ⟨.returning 0 value, hvalue, by simp [Statement.symbols]⟩
  · obtain ⟨b, c, rfl, ⟨e, he, rfl⟩, d, k, rfl, hd, hk⟩ := ha
    obtain rfl := (meaning_mark (by decide)).mp hk
    obtain ⟨value, hvalue, rfl⟩ := meaning_initial hd
    -- One alternative is for two statements: what has a value behind it is an assignment.
    cases value with
    | none => exact ⟨.expression 0 e, he, by simp [Statement.symbols, valueSymbols]⟩
    | some v => exact ⟨.assignment 0 e v, ⟨he, hvalue v rfl⟩, by simp [Statement.symbols, valueSymbols]⟩

theorem meaning_list (ha : Meaning (production .list) a) : RuleMeaning .list a := by
  obtain ⟨b, c, rfl, hb, d, e, rfl, ⟨x, hx, rfl⟩, g, k, rfl, hg, l, m, rfl, ⟨t, ht, rfl⟩, o, q, rfl, ho, r, u, rfl, hr,
    v, w, rfl, hv, hw⟩ := ha
  obtain rfl := (meaning_word (by decide)).mp hb
  obtain rfl := (meaning_mark (by decide)).mp hg
  obtain rfl := (meaning_mark (by decide)).mp ho
  obtain rfl := (meaning_mark (by decide)).mp hr
  obtain rfl := (meaning_mark (by decide)).mp hw
  obtain ⟨elements, hne, helements, rfl⟩ := meaning_separated (fun a => meaning_expression) hv
  refine ⟨⟨.blank, x, true, some t, some (.list .blank elements)⟩, ⟨hx, by simpa using ht, ?_⟩, ?_⟩
  · exact ⟨rfl, by simp, hne, (Expr.allWellFormed_iff _).mpr helements⟩
  · simp [Global.symbols, Global.keyword, Global.isList, Expr.isList, typeSymbols, valueSymbols, Expr.symbols]

/-- The value of a global that is written as an expression is no list. -/
theorem wellFormed_of_plain {x : String} {type : Option String} {value : Option Expr} {isMutable : Bool} (hx : IsName x)
    (htype : ∀ t ∈ type, IsName t) (hvalue : ∀ e ∈ value, e.WellFormed) (hconstant : value = none → isMutable = true) :
    Global.WellFormed ⟨.blank, x, isMutable, type, value⟩ ∧
      Global.isList ⟨.blank, x, isMutable, type, value⟩ = false := by
  cases value with
  | none => exact ⟨⟨hx, htype, hconstant rfl⟩, rfl⟩
  | some e =>
    obtain ⟨hshape, hlist⟩ := Reader.valueWellFormed_of_expression
      (g := ⟨.blank, x, isMutable, type, some e⟩) rfl (hvalue e rfl)
    exact ⟨⟨hx, htype, hshape⟩, hlist⟩

theorem meaning_mutable (ha : Meaning (production .mutable) a) : RuleMeaning .mutable a := by
  obtain ⟨b, c, rfl, hb, d, e, rfl, ⟨x, hx, rfl⟩, g, k, rfl, hg, hk⟩ := ha
  obtain rfl := (meaning_word (by decide)).mp hb
  obtain ⟨type, htype, rfl⟩ := meaning_typing hg
  obtain ⟨value, hvalue, rfl⟩ := meaning_initial hk
  obtain ⟨hwf, hlist⟩ := wellFormed_of_plain hx htype hvalue fun _ => rfl
  exact ⟨⟨.blank, x, true, type, value⟩, hwf, by simp [Global.symbols, Global.keyword, hlist]⟩

theorem meaning_immutable (ha : Meaning (production .immutable) a) : RuleMeaning .immutable a := by
  obtain ⟨b, c, rfl, hb, d, e, rfl, ⟨x, hx, rfl⟩, g, k, rfl, hg, l, m, rfl, hl, v, hv, rfl⟩ := ha
  obtain rfl := (meaning_word (by decide)).mp hb
  obtain rfl := (meaning_mark (by decide)).mp hl
  obtain ⟨type, htype, rfl⟩ := meaning_typing hg
  have hvalue : ∀ e ∈ some v, e.WellFormed := by simpa using hv
  obtain ⟨hwf, hlist⟩ := wellFormed_of_plain hx htype hvalue fun hnone => absurd hnone (Option.some_ne_none v)
  exact ⟨⟨.blank, x, false, type, some v⟩, hwf, by simp [Global.symbols, Global.keyword, hlist, valueSymbols]⟩

theorem meaning_global (ha : Meaning (production .global) a) : RuleMeaning .global a := by
  obtain ⟨b, c, rfl, hb, hc⟩ := ha
  obtain rfl := (meaning_mark (by decide)).mp hc
  rcases hb with hb | hb | hb <;> exact hb

theorem meaning_function (ha : Meaning (production .function) a) : RuleMeaning .function a := by
  obtain ⟨b, c, rfl, hb, d, e, rfl, ⟨x, hx, rfl⟩, g, k, rfl, hg, l, m, rfl, hl, o, q, rfl, ho, r, u, rfl, hr, v, w, rfl,
    hv, y, z, rfl, ⟨body, hne, hbody, rfl⟩, hz⟩ := ha
  obtain rfl := (meaning_word (by decide)).mp hb
  obtain rfl := (meaning_mark (by decide)).mp hg
  obtain rfl := (meaning_mark (by decide)).mp ho
  obtain rfl := (meaning_word (by decide)).mp hv
  obtain rfl := (meaning_word (by decide)).mp hz
  obtain ⟨returns, hreturns, rfl⟩ := meaning_typing hr
  have hparameter : ∀ a, Meaning (Form.row [.identifier, .text ":", .identifier]) a →
      ∃ p : Parameter, (IsName p.name ∧ IsName p.type) ∧ a = p.symbols := by
    rintro a ⟨b, c, rfl, ⟨name, hname, rfl⟩, d, e, rfl, hd, type, htype, rfl⟩
    obtain rfl := (meaning_mark (by decide)).mp hd
    exact ⟨⟨.blank, name, type⟩, ⟨hname, htype⟩, rfl⟩
  obtain ⟨parameters, hparameters, rfl⟩ := meaning_optional_separated hparameter hl
  refine ⟨⟨.blank, x, parameters, returns, body⟩, ⟨hx, hparameters, hreturns, hne, hbody⟩, ?_⟩
  simp [Function.symbols]

theorem meaning_source (ha : Meaning (production .source) a) : RuleMeaning .source a := by
  obtain ⟨b, c, rfl, hb, hc⟩ := ha
  have hglobal : ∀ a, Meaning (.rule .global) a → ∃ g : Global, g.WellFormed ∧ a = g.symbols := fun a ha => ha
  have hfunction : ∀ a, Meaning (.rule .function) a → ∃ f : Function, f.WellFormed ∧ a = f.symbols := fun a ha => ha
  obtain ⟨globals, hglobals, rfl⟩ := meaning_many hglobal hb
  obtain ⟨functions, hne, hfunctions, rfl⟩ := meaning_some hfunction hc
  exact ⟨⟨globals, functions⟩, ⟨hglobals, hfunctions, hne⟩, rfl⟩

/-- Each rule means what its production means. -/
theorem ruleMeaning_of_production {r : Rule} (ha : Meaning (production r) a) : RuleMeaning r a := by
  cases r with
  | source => exact meaning_source ha
  | global => exact meaning_global ha
  | list => exact meaning_list ha
  | mutable => exact meaning_mutable ha
  | immutable => exact meaning_immutable ha
  | function => exact meaning_function ha
  | block => exact meaning_block ha
  | statement => exact meaning_statement ha
  | expression =>
    obtain ⟨e, he, -, rfl⟩ := ha
    exact ⟨e, he, rfl⟩
  | logical => exact exists_of_operands (by decide) (fun a (ha : RuleMeaning .comparison a) => ha) ha
  | comparison => exact exists_of_operands (by decide) (fun a (ha : RuleMeaning .additive a) => ha) ha
  | additive => exact exists_of_operands (by decide) (fun a (ha : RuleMeaning .multiplicative a) => ha) ha
  | multiplicative => exact exists_of_operands (by decide) (fun a (ha : RuleMeaning .primary a) => ha) ha
  | primary => exact meaning_primary ha

/-- What derives has the meaning of its form. -/
theorem Derives.meaning {ts : List Token} (h : Derives f ts) (hts : ∀ t ∈ ts, t.Proper) :
    Meaning f (ts.map Token.symbol) := by
  induction h with
  | @text x t hx =>
    have ht := (hts t (List.mem_cons_self ..)).readable
    subst hx
    -- A text is punctuation, a reserved word or neither; the grammar only writes the first two.
    by_cases hmark : t.text ∈ marks
    · exact Or.inl ⟨hmark, by rw [List.map_singleton, ht.symbol_of_mem_marks hmark]⟩
    · by_cases hword : t.text ∈ keywords
      · exact Or.inr (Or.inl ⟨hword, by rw [List.map_singleton, ht.symbol_of_mem_keywords hword]⟩)
      · exact Or.inr (Or.inr ⟨hmark, hword⟩)
  | @identifier t hkind hword =>
    refine ⟨t.text, (hts t (List.mem_cons_self ..)).isName hkind hword, ?_⟩
    rw [List.map_singleton, Token.symbol_of_kind (Or.inl hkind), hkind, ident]
  | @kind k t hk =>
    intro hliteral
    obtain ⟨value, hvalue⟩ := (hts t (List.mem_cons_self ..)).exists_literal (by rwa [hk])
    exact ⟨value, by rw [List.map_singleton, Reader.symbol_of_literalOf? hvalue]⟩
  | rule h ih => exact ruleMeaning_of_production (ih hts)
  | empty => rfl
  | seq ha hb iha ihb =>
    refine ⟨_, _, List.map_append .., iha fun t ht => ?_, ihb fun t ht => ?_⟩
    · exact hts t (List.mem_append_left _ ht)
    · exact hts t (List.mem_append_right _ ht)
  | first h ih => exact Or.inl (ih hts)
  | second h ih => exact Or.inr (ih hts)
  | stop => exact ⟨[], rfl, by simp⟩
  | more ha hmany iha ihmany =>
    have hfirst := iha fun t ht => hts t (List.mem_append_left _ ht)
    obtain ⟨parts, hparts, hall⟩ := ihmany fun t ht => hts t (List.mem_append_right _ ht)
    refine ⟨_ :: parts, ?_, List.forall_mem_cons.mpr ⟨hfirst, hall⟩⟩
    rw [List.map_append, hparts, List.flatten_cons]

end Meaning

end Ebnf

/-- Scanned tokens are parsed exactly if they derive from the first rule of the grammar. -/
theorem parse_iff_derives {source : String} {ts : List Token} (hts : tokenize source = .ok ts) :
    (∃ p, parse ts = .ok p) ↔ Ebnf.Derives (.rule .source) ts := by
  have hproper := form_of_mem_tokenize hts
  constructor
  -- The tree of an accepted text derives, and its written form is the text.
  · rintro ⟨p, hp⟩
    exact Ebnf.writes_program (wellFormed_of_parse hproper hp) ts (symbols_of_parse hproper hp)
  -- A derivation means a tree, and the parser reads the written form of every tree.
  · intro hderives
    obtain ⟨p, hwf, hsymbols⟩ := hderives.meaning hproper
    obtain ⟨p', hp, -⟩ := parse_of_symbols (fun t ht => (hproper t ht).readable) hwf hsymbols
    exact ⟨p', hp⟩

/-- The sum derives. -/
theorem parse_iff_derives_sum : Ebnf.Derives (.rule .source) sumTokens :=
  (parse_iff_derives tokenize_sumSource).mp ⟨sumProgram, parse_sumTokens⟩

end BlockLang
