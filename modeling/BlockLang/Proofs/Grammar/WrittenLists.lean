import BlockLang.Proofs.Grammar.Reading
import BlockLang.Proofs.Java.Image
import BlockLang.Proofs.Typing.Walk

/-!
# Where lists are written

The grammar has lists only as initial values of globals.  So no expression that a reader yields has a list in it,
whatever the tokens are: of the readers of expressions none yields a list, and the reader of lists reads expressions
between the brackets.

## Main definitions

- `Expr.Plain`: an expression in which no list is written.
- `Program.Flat`: a program that has lists only as initial values of globals.
- `Reader.Yields`: a reader yields phrases of some kind only.

## Main statement

- `flat_of_parse`: a parsed program is flat.
-/

namespace BlockLang

open Stateful

/-! ## §1 Expressions and programs without lists in them -/

/-- No part of the expression is a list. -/
def Expr.Plain (e : Expr) : Prop :=
  ∀ x ∈ e.parts, x.isList = false

namespace Expr.Plain

variable {e : Expr}

theorem of_children (hlist : e.isList = false) (h : ∀ x ∈ e.children, x.Plain) : e.Plain := by
  intro x hx
  rw [Expr.parts_eq] at hx
  obtain rfl | hx := List.mem_cons.mp hx
  · exact hlist
  · obtain ⟨child, hchild, hx⟩ := List.mem_flatMap.mp hx
    exact h child hchild x hx

theorem isList_eq (h : e.Plain) : e.isList = false :=
  h e e.self_mem_parts

theorem children (h : e.Plain) : ∀ x ∈ e.children, x.Plain := by
  intro child hchild x hx
  apply h
  rw [Expr.parts_eq]
  exact List.mem_cons_of_mem _ (List.mem_flatMap.mpr ⟨child, hchild, hx⟩)

end Expr.Plain

/-- No list is written in the statement. -/
def Statement.Plain (x : Statement) : Prop :=
  ∀ e ∈ x.expressions, e.Plain

/-- No list is written in the arm. -/
def Case.Plain (c : Case) : Prop :=
  ∀ e ∈ c.expressions, e.Plain

theorem plain_block_iff {body : List Statement} :
    (∀ e ∈ blockExpressions body, e.Plain) ↔ ∀ x ∈ body, x.Plain := by
  induction body with
  | nil => simp [blockExpressions]
  | cons first rest ih => rw [blockExpressions, List.forall_mem_append, List.forall_mem_cons, ih, Statement.Plain]

theorem plain_arms_iff {cases : List Case} : (∀ e ∈ armExpressions cases, e.Plain) ↔ ∀ c ∈ cases, c.Plain := by
  induction cases with
  | nil => simp [armExpressions]
  | cons first rest ih => rw [armExpressions, List.forall_mem_append, List.forall_mem_cons, ih, Case.Plain]

/-- Lists are written only as initial values of globals: there is none inside an initial value or in a function. -/
structure Program.Flat (p : Program) : Prop where
  globals : ∀ g ∈ p.globals, ∀ e ∈ g.value, ∀ x ∈ e.children, x.Plain
  functions : ∀ f ∈ p.functions, ∀ x ∈ f.body, x.Plain

/-! ## §2 What readers yield -/

/-- Whatever the reader yields is of some kind. -/
def Reader.Yields {α : Type} (P : α → Prop) (r : Reader α) : Prop :=
  ∀ s x t, r s = .ok x t → P x

namespace Reader.Yields

variable {α β : Type} {P : α → Prop} {Q : β → Prop} {r a d : Reader α}

theorem pure {x : α} (h : P x) : Yields P (pure x) := by
  rintro s _ t ⟨⟩
  exact h

theorem throw (e : GrammarError) : Yields P (throw e : Reader α) := nofun

theorem unexpected (expected : Expectation) : Yields P (unexpected expected) := nofun

theorem anything (r : Reader α) : Yields (fun _ => True) r :=
  fun _ _ _ _ => trivial

theorem bind {k : α → Reader β} (hr : Yields P r) (hk : ∀ x, P x → Yields Q (k x)) : Yields Q (r >>= k) := by
  intro s y t h
  obtain ⟨x, m, hx, hy⟩ := bind_eq_ok.mp h
  exact hk x (hr s x m hx) m y t hy

/-- What has been read before makes no difference. -/
theorem after {k : α → Reader β} (hk : ∀ x, Yields Q (k x)) : Yields Q (r >>= k) :=
  bind (anything r) fun x _ => hk x

theorem ite {c : Prop} [Decidable c] (ha : Yields P a) (hd : Yields P d) : Yields P (if c then a else d) := by
  split
  · exact ha
  · exact hd

/-! ### Sequences -/

theorem moreItems (hr : Yields P r) (closing : String) (n : Nat) :
    Yields (fun xs => ∀ x ∈ xs, P x) (moreItems r closing n) := by
  induction n with
  | zero => exact unexpected _
  | succ n ih =>
    refine after fun found => ite ?_ (after fun found => ite (pure (List.forall_mem_nil _)) (unexpected _))
    exact bind hr fun x hx => bind ih fun xs hxs => pure (List.forall_mem_cons.mpr ⟨hx, hxs⟩)

theorem commaSeparated (hr : Yields P r) (closing : String) (n : Nat) :
    Yields (fun xs => ∀ x ∈ xs, P x) (commaSeparated r closing n) := by
  refine after fun found => ite (pure (List.forall_mem_nil _)) ?_
  exact bind hr fun x hx => bind (moreItems hr closing n) fun xs hxs => pure (List.forall_mem_cons.mpr ⟨hx, hxs⟩)

theorem many (more : ReaderState → Bool) (hr : Yields P r) (n : Nat) :
    Yields (fun xs => ∀ x ∈ xs, P x) (many more r n) := by
  induction n with
  | zero => exact pure (List.forall_mem_nil _)
  | succ n ih =>
    refine after fun s => ite ?_ (pure (List.forall_mem_nil _))
    exact bind hr fun x hx => bind ih fun xs hxs => pure (List.forall_mem_cons.mpr ⟨hx, hxs⟩)

/-! ### Expressions -/

theorem literal (offset : Nat) (value : Literal) : Yields Expr.Plain (literal offset value) :=
  after fun _ => after fun _ => pure (.of_children rfl (List.forall_mem_nil _))

section

variable {expression : Reader Expr} (h : Yields Expr.Plain expression) (n : Nat)

include h

theorem named : Yields Expr.Plain (named expression n) := by
  refine after fun start => after fun name => after fun found => ite ?_ (after fun found => ite ?_ ?_)
  · exact bind (commaSeparated h ")" n) fun es hes => after fun id => pure (.of_children rfl hes)
  · refine bind h fun index hindex => after fun _ => after fun id => pure (.of_children rfl ?_)
    exact List.forall_mem_singleton.mpr hindex
  · exact after fun id => pure (.of_children rfl (List.forall_mem_nil _))

theorem parenthesized (start : Nat) : Yields Expr.Plain (parenthesized expression start) := by
  refine after fun _ => bind h fun inner hinner => after fun _ => after fun id => pure (.of_children rfl ?_)
  exact List.forall_mem_singleton.mpr hinner

theorem primary : Yields Expr.Plain (primary expression n) := by
  refine after fun s => ?_
  cases s.current with
  | none => exact unexpected _
  | some tok =>
    simp only
    cases tok.kind with
    | identifier =>
      simp only
      cases constantOf? tok.text with
      | some value => exact literal _ _
      | none => exact ite (unexpected _) (named h n)
    -- An opening bracket other than a parenthesis begins no expression.
    | operator => exact ite (parenthesized h _) (unexpected _)
    | integer | decimal | character | string =>
      simp only
      cases literalOf? tok with
      | some value => exact literal _ _
      | none => exact throw _

theorem chain (level : Nat) {left : Expr} (hleft : left.Plain) : Yields Expr.Plain (chain level expression n left) := by
  induction n generalizing left with
  | zero => exact pure hleft
  | succ n ih =>
    refine after fun found => ?_
    cases found with
    | none => exact pure hleft
    | some op =>
      -- The operands joined so far are the left operand of the next operator.
      refine bind h fun right hright => after fun id => ih (.of_children rfl ?_)
      exact List.forall_mem_cons.mpr ⟨hleft, List.forall_mem_singleton.mpr hright⟩

theorem operands (level : Nat) : Yields Expr.Plain (operands level expression n) :=
  bind h fun _ hleft => chain h n level hleft

theorem logical : Yields Expr.Plain (logical expression n) :=
  operands (operands (operands (operands (primary h n) n 4) n 3) n 2) n 1

end

theorem expressionWithin (n : Nat) : Yields Expr.Plain (expressionWithin n) := by
  induction n with
  | zero => exact unexpected _
  | succ n ih => exact logical ih n

/-! ### Statements -/

section

variable {statement : Reader Statement} (hstatement : Yields Statement.Plain statement) (n : Nat)

include hstatement

theorem statements (terminators : List String) :
    Yields (fun body => ∀ x ∈ body, x.Plain) (statements statement terminators n) := by
  induction n with
  | zero => exact unexpected _
  | succ n ih =>
    refine after fun s => ite (pure (List.forall_mem_nil _)) (ite (unexpected _) ?_)
    exact bind hstatement fun x hx => bind ih fun xs hxs => pure (List.forall_mem_cons.mpr ⟨hx, hxs⟩)

theorem block (terminators : List String) :
    Yields (fun body => ∀ x ∈ body, x.Plain) (block statement terminators n) :=
  bind (statements hstatement n terminators) fun _ hbody => ite (after fun _ => throw _) (pure hbody)

end

section

variable {expression : Reader Expr} (h : Yields Expr.Plain expression)

include h

theorem initializer? : Yields (fun value => ∀ e ∈ value, e.Plain) (initializer? expression) := by
  refine after fun found => ite (bind h fun e he => pure fun x hx => ?_) (pure fun _ hx => nomatch hx)
  obtain rfl := Option.some.inj hx
  exact he

theorem declaration (start : Nat) : Yields Statement.Plain (declaration expression start) := by
  refine after fun id => after fun name => after fun type => bind (initializer? h) fun value hvalue => after fun _ => ?_
  exact pure fun e he => hvalue e (Option.mem_toList.mp he)

theorem returned (start : Nat) : Yields Statement.Plain (returned expression start) :=
  bind h fun _ hvalue => after fun _ => pure (List.forall_mem_singleton.mpr hvalue)

theorem effect (start : Nat) : Yields Statement.Plain (effect expression start) := by
  refine bind h fun value hvalue => after fun found => ite (bind h fun stored hstored => after fun _ => pure ?_) ?_
  · exact List.forall_mem_cons.mpr ⟨hvalue, List.forall_mem_singleton.mpr hstored⟩
  · exact after fun _ => pure (List.forall_mem_singleton.mpr hvalue)

variable {statement : Reader Statement} (hstatement : Yields Statement.Plain statement) (n : Nat)

include hstatement

theorem valueCase : Yields Case.Plain (valueCase expression statement n) := by
  refine after fun start => after fun _ => bind h fun value hvalue => after fun _ => ?_
  refine bind (block hstatement n _) fun body hbody => pure ?_
  exact List.forall_mem_cons.mpr ⟨hvalue, plain_block_iff.mpr hbody⟩

theorem switch (start : Nat) : Yields Statement.Plain (switch expression statement n start) := by
  refine bind h fun condition hcondition => bind (many _ (valueCase h hstatement n) n) fun arms harms => ?_
  refine after fun _ => after fun _ => bind (block hstatement n _) fun body hbody => after fun _ => pure ?_
  refine List.forall_mem_cons.mpr ⟨hcondition, plain_arms_iff.mpr ?_⟩
  exact List.forall_mem_append.mpr ⟨harms, List.forall_mem_singleton.mpr (plain_block_iff.mpr hbody)⟩

theorem conditional (start : Nat) : Yields Statement.Plain (conditional expression statement n start) := by
  refine bind h fun condition hcondition => after fun _ => bind (block hstatement n _) fun onTrue htrue => ?_
  have hplain (onFalse : List Statement) (hfalse : ∀ x ∈ onFalse, x.Plain) :
      Statement.Plain (.conditional start condition onTrue onFalse) :=
    List.forall_mem_cons.mpr ⟨hcondition, List.forall_mem_append.mpr
      ⟨plain_block_iff.mpr htrue, plain_block_iff.mpr hfalse⟩⟩
  refine after fun found => ?_
  split
  · exact bind (block hstatement n _) fun onFalse hfalse => after fun _ => pure (hplain onFalse hfalse)
  · exact bind (pure (List.forall_mem_nil _)) fun onFalse hfalse => after fun _ => pure (hplain onFalse hfalse)

theorem loop (start : Nat) : Yields Statement.Plain (loop expression statement n start) := by
  refine bind h fun condition hcondition => after fun _ => bind (block hstatement n _) fun body hbody => ?_
  exact after fun _ => pure (List.forall_mem_cons.mpr ⟨hcondition, plain_block_iff.mpr hbody⟩)

theorem statementOf : Yields Statement.Plain (statementOf expression statement n) := by
  refine after fun start => after fun _ => ite (declaration h start) (after fun _ => ite ?_ ?_)
  · exact switch h hstatement n start
  refine after fun _ => ite (conditional h hstatement n start) (after fun _ => ite ?_ ?_)
  · exact loop h hstatement n start
  exact after fun _ => ite (returned h start) (effect h start)

end

theorem statementWithin (n : Nat) : Yields Statement.Plain (statementWithin n) := by
  induction n with
  | zero => exact unexpected _
  | succ n ih => exact statementOf (expressionWithin n) ih n

/-! ### Programs -/

section

variable {expression : Reader Expr} (h : Yields Expr.Plain expression) (n : Nat)

include h

theorem listLiteral : Yields (fun e => ∀ x ∈ e.children, x.Plain) (listLiteral expression n) := by
  have helement : Yields Expr.Plain (advance *> expression) :=
    after (r := advance) (k := fun _ => expression) fun _ => h
  refine after fun start => after fun id => after fun _ => bind h fun first hfirst => ?_
  exact bind (many _ helement n) fun more hmore => after fun _ => pure (List.forall_mem_cons.mpr ⟨hfirst, hmore⟩)

theorem globalOf : Yields (fun g => ∀ e ∈ g.value, ∀ x ∈ e.children, x.Plain) (globalOf expression n) := by
  refine after fun start => after fun id => bind ?_ fun g hg => after fun _ => pure hg
  -- What the keyword is decides what the initial value can be: a list, any expression or none, any expression.
  refine after fun _ => ite ?_ (after fun _ => ite ?_ ?_)
  · refine after fun _ => after fun _ => after fun _ => after fun _ => bind (listLiteral h n) fun value hvalue => ?_
    exact pure fun e he => Option.some.inj he ▸ hvalue
  · refine after fun _ => after fun _ => bind (initializer? h) fun value hvalue => pure ?_
    exact fun e he => (hvalue e he).children
  · refine after fun _ => after fun _ => after fun _ => after fun _ => bind h fun value hvalue => pure ?_
    exact fun e he => Option.some.inj he ▸ hvalue.children

end

theorem functionOf {statement : Reader Statement} (hstatement : Yields Statement.Plain statement) (n : Nat) :
    Yields (fun f => ∀ x ∈ f.body, x.Plain) (functionOf statement n) := by
  refine after fun start => after fun id => after fun _ => after fun name => after fun _ => ?_
  refine after fun parameters => after fun returns => after fun _ => ?_
  exact bind (block hstatement n _) fun body hbody => after fun _ => pure hbody

theorem program : Yields Program.Flat program := by
  refine after fun s => ?_
  have hglobal := globalOf (expressionWithin (s.rest.length + 1)) (s.rest.length + 1)
  have hfunction := functionOf (statementWithin (s.rest.length + 1)) (s.rest.length + 1)
  refine bind (many _ hglobal _) fun globals hglobals => bind (many _ hfunction _) fun functions hfunctions => ?_
  exact after fun s => ite (unexpected _) (ite (throw _) (pure ⟨hglobals, hfunctions⟩))

end Reader.Yields

/-- Whatever the tokens, a parsed program has lists only as initial values of globals. -/
theorem flat_of_parse {tokens : List Token} {p : Program} (h : parse tokens = .ok p) : p.Flat := by
  unfold parse Reader.parse at h
  split at h
  · rename_i p' t hp
    obtain rfl := Except.ok.inj h
    exact Reader.Yields.program _ _ _ hp
  · cases h

end BlockLang
