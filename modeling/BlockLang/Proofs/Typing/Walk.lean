import BlockLang.Proofs.Typing.ProgramSoundness

/-!
# The walk of the checker

Checking a function comes down to two things: its expressions are checked, one after the other, and its locals are
declared.  Everything else opens and closes blocks or fails.  A walk is such a succession of steps; what one step
preserves is preserved by every walk, so that properties of checked functions need no look at the statements.

## Main definitions

- `Function.locals`, `Function.expressions`: what a function declares, and the expressions that stand in it.
- `Checker.Records`: what checking expressions does to a state.
- `Checker.Walk`: a succession of checked expressions and declared locals.

## Main statements

- `Checker.walk_of_function`: a function that is accepted has been walked over.
-/

namespace BlockLang

open Stateful

/-! ## §1 Locals and expressions -/

mutual

/-- The local declarations of a statement. -/
def Statement.locals : Statement → Names
  | .declaration node name _ _ => [(name, node.id)]
  | .conditional _ _ onTrue onFalse => blockLocals onTrue ++ blockLocals onFalse
  | .switch _ _ cases => armLocals cases
  | .loop _ _ body => blockLocals body
  | .expression _ _ | .assignment _ _ _ | .returning _ _ => []

/-- The local declarations of statements. -/
def blockLocals : List Statement → Names
  | [] => []
  | first :: rest => first.locals ++ blockLocals rest

/-- The local declarations of an arm of a switch. -/
def Case.locals : Case → Names
  | .mk _ _ body => blockLocals body

/-- The local declarations of the arms of a switch. -/
def armLocals : List Case → Names
  | [] => []
  | arm :: rest => arm.locals ++ armLocals rest

end

/-- The parameters and local declarations of a function, in the order of the text. -/
def Function.locals (f : Function) : Names :=
  f.parameters.map (fun p => (p.name, p.node.id)) ++ blockLocals f.body

mutual

/-- The expressions of a statement that are part of no other expression. -/
def Statement.expressions : Statement → List Expr
  | .expression _ value | .returning _ value => [value]
  | .declaration _ _ _ value => value.toList
  | .assignment _ receiver value => [receiver, value]
  | .conditional _ condition onTrue onFalse => condition :: (blockExpressions onTrue ++ blockExpressions onFalse)
  | .switch _ subject cases => subject :: armExpressions cases
  | .loop _ condition body => condition :: blockExpressions body

/-- The expressions of statements. -/
def blockExpressions : List Statement → List Expr
  | [] => []
  | first :: rest => first.expressions ++ blockExpressions rest

/-- The expressions of an arm of a switch. -/
def Case.expressions : Case → List Expr
  | .mk _ value body => value.toList ++ blockExpressions body

/-- The expressions of the arms of a switch. -/
def armExpressions : List Case → List Expr
  | [] => []
  | arm :: rest => arm.expressions ++ armExpressions rest

end

/-- All declared names have one property, and all expressions another one. -/
structure Throughout (P : String → Prop) (Q : Expr → Prop) (locals : Names) (es : List Expr) : Prop where
  names : ∀ x ∈ locals, P x.1
  expressions : ∀ e ∈ es, Q e

namespace Throughout

variable {P : String → Prop} {Q : Expr → Prop} {locals more : Names} {es fs : List Expr} {e : Expr}

theorem left (h : Throughout P Q (locals ++ more) (es ++ fs)) : Throughout P Q locals es :=
  ⟨(List.forall_mem_append.mp h.names).1, (List.forall_mem_append.mp h.expressions).1⟩

theorem right (h : Throughout P Q (locals ++ more) (es ++ fs)) : Throughout P Q more fs :=
  ⟨(List.forall_mem_append.mp h.names).2, (List.forall_mem_append.mp h.expressions).2⟩

theorem head (h : Throughout P Q locals (e :: es)) : Q e :=
  (List.forall_mem_cons.mp h.expressions).1

theorem tail (h : Throughout P Q locals (e :: es)) : Throughout P Q locals es :=
  ⟨h.names, (List.forall_mem_cons.mp h.expressions).2⟩

/-- What holds throughout a block holds throughout each of its statements. -/
theorem statement {body : List Statement} (h : Throughout P Q (blockLocals body) (blockExpressions body)) :
    ∀ st ∈ body, Throughout P Q st.locals st.expressions := by
  induction body with
  | nil => exact List.forall_mem_nil _
  | cons first rest ih => exact List.forall_mem_cons.mpr ⟨h.left, ih h.right⟩

/-- What holds throughout the arms of a switch holds throughout each of them. -/
theorem arm {cases : List Case} (h : Throughout P Q (armLocals cases) (armExpressions cases)) :
    ∀ c ∈ cases, Throughout P Q c.locals c.expressions := by
  induction cases with
  | nil => exact List.forall_mem_nil _
  | cons first rest ih => exact List.forall_mem_cons.mpr ⟨h.left, ih h.right⟩

end Throughout

/-! ## §2 Expressions -/

namespace Checker

variable {s s' s'' : CheckerState}

/-- What checking expressions does to a state: it records types, and what nodes stand for in the scope. -/
inductive Records : CheckerState → CheckerState → Prop where
  | refl (s : CheckerState) : Records s s
  | type {s s' : CheckerState} (id : Nat) (τ : Ty) :
      Records s s' → Records s { s' with table := s'.table.setType id τ }
  | variable {s s' : CheckerState} (id : Nat) {name : String} {v : VariableInfo} :
      Records s s' → s'.scope.findVariable? name = some v → Records s { s' with table := s'.table.setVariable id v }
  | function {s s' : CheckerState} (id : Nat) {name : String} {arity : Nat} {f : FunctionInfo} :
      Records s s' → s'.scope.findFunction? name arity = some f →
      Records s { s' with table := s'.table.setFunction id f }

namespace Records

theorem trans (h : Records s s') (h' : Records s' s'') : Records s s'' := by
  induction h' with
  | refl => exact h
  | type id τ _ ih => exact .type id τ ih
  | «variable» id _ hfind ih => exact .variable id ih hfind
  | function id _ hfind ih => exact .function id ih hfind

/-- The scope is the same before and after. -/
theorem scope (h : Records s s') : s'.scope = s.scope := by
  induction h with
  | refl => rfl
  | type _ _ _ ih | «variable» _ _ _ ih | function _ _ _ ih => exact ih

/-- No runtime names are taken. -/
theorem locals (h : Records s s') : s'.locals = s.locals := by
  induction h with
  | refl => rfl
  | type _ _ _ ih | «variable» _ _ _ ih | function _ _ _ ih => exact ih

/-- No entry of a variable is lost. -/
theorem vars_subset (h : Records s s') : s.table.vars ⊆ s'.table.vars := by
  induction h with
  | refl => exact List.Subset.refl _
  | type _ _ _ ih | function _ _ _ ih => exact ih
  | «variable» _ _ _ ih => exact List.subset_cons_of_subset _ ih

/-- No entry of a function is lost. -/
theorem funs_subset (h : Records s s') : s.table.funs ⊆ s'.table.funs := by
  induction h with
  | refl => exact List.Subset.refl _
  | type _ _ _ ih | «variable» _ _ _ ih => exact ih
  | function _ _ _ ih => exact List.subset_cons_of_subset _ ih

end Records

mutual

/-- Checking an expression does nothing else. -/
theorem records_of_expression : ∀ (e : Expr) {s s' : CheckerState} {τ : Ty}, expression e s = .ok τ s' → Records s s'
  | .literal node value, s, s', τ, h => by
    obtain ⟨-, rfl⟩ := expression_literal_eq_ok h
    exact .type _ _ (.refl _)
  | .group node inner, s, s', τ, h => by
    obtain ⟨-, s₁, hinner, rfl⟩ := expression_group_eq_ok h
    exact .type _ _ (records_of_expression inner hinner)
  | .binary node op left right, s, s', τ, h => by
    obtain ⟨a, b, s₁, s₂, hleft, hright, -, rfl⟩ := expression_binary_eq_ok h
    exact .type _ _ ((records_of_expression left hleft).trans (records_of_expression right hright))
  | .variable node name, s, s', τ, h => by
    obtain ⟨v, hfind, -, rfl⟩ := expression_variable_eq_ok h
    exact .type _ _ (.variable _ (.refl _) hfind)
  | .element node name index, s, s', τ, h => by
    obtain ⟨v, s₁, hindex, hfind, -, -, rfl⟩ := expression_element_eq_ok h
    exact .type _ _ (.variable _ (records_of_expression index hindex) hfind)
  | .call node name arguments, s, s', τ, h => by
    obtain ⟨found, f, s₁, harguments, hfind, -, -, rfl⟩ := expression_call_eq_ok h
    exact .type _ _ (.function _ (records_of_expressions arguments harguments) hfind)
  | .list node elements, s, s', τ, h => by
    obtain ⟨found, s₁, helements, -, rfl⟩ := expression_list_eq_ok h
    exact .type _ _ (records_of_expressions elements helements)

theorem records_of_expressions : ∀ (es : List Expr) {s s' : CheckerState} {found : List Ty},
    expressions es s = .ok found s' → Records s s'
  | [], s, s', found, h => by
    cases h
    exact .refl _
  | e :: rest, s, s', found, h => by
    obtain ⟨τ, τs, s₁, hhead, htail, -⟩ := expressions_cons_eq_ok h
    exact (records_of_expression e hhead).trans (records_of_expressions rest htail)

end

/-- The checker accepts an expression in some state. -/
def Accepts (e : Expr) : Prop :=
  ∃ s τ s', expression e s = .ok τ s'

/-! ## §3 Walks -/

/-- The entry of a local that is declared next. -/
def localInfo (s : CheckerState) (name : String) (τ : Ty) (list : Bool) : VariableInfo :=
  ⟨name, (s.locals.fresh name).1, τ, true, list⟩

/-- A walk from one state to another that declares the given locals and checks the given expressions. -/
inductive Walk : Names → List Expr → CheckerState → CheckerState → Prop where
  | stay (s : CheckerState) : Walk [] [] s s
  | check {e : Expr} {τ : Ty} {s s' : CheckerState} : expression e s = .ok τ s' → Walk [] [e] s s'
  | declare {s : CheckerState} {scope : Scope} (node : Node) (name : String) (τ : Ty) (list : Bool) :
      s.scope.defineVariable? (localInfo s name τ list) = some scope →
      Walk [(name, node.id)] [] s { s with
        scope := scope
        table := s.table.setVariable node.id (localInfo s name τ list)
        locals := (s.locals.fresh name).2 }
  | block {locals : Names} {es : List Expr} {s s' : CheckerState} :
      Walk locals es { s with scope := s.scope.push } s' → Walk locals es s { s' with scope := s'.scope.pop }
  | append {locals more : Names} {es fs : List Expr} {s s' s'' : CheckerState} :
      Walk locals es s s' → Walk more fs s' s'' → Walk (locals ++ more) (es ++ fs) s s''

/-- A checker that succeeds has walked. -/
def Walks {α : Type} (locals : Names) (es : List Expr) (x : Checker α) : Prop :=
  ∀ s a s', x s = .ok a s' → Walk locals es s s'

namespace Walks

variable {α β : Type} {locals more : Names} {es fs : List Expr} {x : Checker α} {f : α → Checker β}

/-- A checker that leaves the state alone stays. -/
theorem of_eq (h : ∀ s a s', x s = .ok a s' → s' = s) : Walks [] [] x := by
  intro s a s' hx
  rw [h s a s' hx]
  exact .stay s

theorem pure (a : α) : Walks [] [] (pure a : Checker α) := by
  rintro s _ _ ⟨⟩
  exact .stay s

theorem throw (e : TypingError) : Walks locals es (throw e : Checker α) :=
  fun _ _ _ h => nomatch h

theorem bind (hx : Walks locals es x) (hf : ∀ a, Walks more fs (f a)) :
    Walks (locals ++ more) (es ++ fs) (x >>= f) := by
  intro s b s'' h
  obtain ⟨a, s', hxs, hfs⟩ := bind_eq_ok.mp h
  exact .append (hx s a s' hxs) (hf a s' b s'' hfs)

/-- A first part that stays can be left out. -/
theorem after (hx : Walks [] [] x) (hf : ∀ a, Walks locals es (f a)) : Walks locals es (x >>= f) :=
  bind hx hf

/-- An expression that is checked first comes first. -/
theorem cons {e : Expr} {f : Ty → Checker β} (hf : ∀ τ, Walks locals es (f τ)) :
    Walks locals (e :: es) (expression e >>= f) :=
  bind (fun _ _ _ => .check) hf

theorem ite {c : Prop} [Decidable c] {x' : Checker α} (hx : Walks locals es x) (hx' : Walks locals es x') :
    Walks locals es (if c then x else x') := by
  split
  · exact hx
  · exact hx'

theorem requireAssignable (target found : Ty) (offset : Nat) :
    Walks [] [] (Checker.requireAssignable target found offset) :=
  ite (pure ()) (throw _)

theorem inScope (hx : Walks locals es x) : Walks locals es (Checker.inScope x) := by
  intro s a s' h
  obtain ⟨s₁, hrun, rfl⟩ := inScope_eq_ok.mp h
  exact .block (hx _ a s₁ hrun)

/-- Declaring a local is one step. -/
theorem declare (node : Node) (name : String) (τ : Ty) (list : Bool) :
    Walks [(name, node.id)] []
      (freshName name >>= fun runtimeName => defineVariable node ⟨name, runtimeName, τ, true, list⟩) := by
  intro s u s' h
  rw [freshName_bind] at h
  obtain ⟨scope, hdefine, rfl⟩ := defineVariable_eq_ok.mp h
  exact .declare node name τ list hdefine

/-! ## §4 Statements -/

theorem condition (e : Expr) : Walks [] [e] (Checker.condition e) :=
  cons fun _ => requireAssignable _ _ _

theorem listElement? (e : Expr) : Walks [] [] (Checker.listElement? e) :=
  of_eq fun _ _ _ => listElement?_eq_ok

theorem declaredType (node : Node) (name : String) (value : Option Expr) (declared found aliased : Option Ty) :
    Walks [] [] (Checker.declaredType node name value declared found aliased) :=
  of_eq fun _ _ _ h => (initial_of_declaredType h).1

/-- The initial value of a local is checked before the local is declared. -/
theorem declaration (node : Node) (name : String) (type : Option String) (value : Option Expr) :
    Walks [(name, node.id)] value.toList (Checker.declaration node name type value) := by
  unfold Checker.declaration
  refine after (of_eq fun _ _ _ => resolveType?_eq_ok) fun declared => ?_
  cases value with
  | none =>
    refine after (pure (none, none)) fun x => ?_
    exact after (declaredType _ _ _ _ _ _) fun y => declare node name y.1 y.2
  | some e =>
    refine cons fun σ => after (listElement? e) fun aliased => after (pure (some σ, aliased)) fun x => ?_
    exact after (declaredType _ _ _ _ _ _) fun y => declare node name y.1 y.2

theorem assignment (offset : Nat) (receiver value : Expr) :
    Walks [] [receiver, value] (Checker.assignment offset receiver value) := by
  unfold Checker.assignment
  refine ite (cons fun _ => cons fun _ => ?_) (throw _)
  refine after (listElement? receiver) fun _ => after (listElement? value) fun _ => ?_
  exact of_eq fun _ _ _ h => (storable_eq_ok h).1

theorem caseValue (τ : Ty) : ∀ value : Option Expr, Walks [] value.toList (Checker.caseValue τ value)
  | none => pure ()
  | some _ => cons fun _ => ite (pure ()) (throw _)

mutual

theorem statement : ∀ st : Statement, Walks st.locals st.expressions (Checker.statement st)
  | .expression _ e => by
    rw [Checker.statement]
    exact cons fun _ => pure ()
  | .declaration node name type value => by
    rw [Checker.statement]
    exact declaration node name type value
  | .assignment offset receiver value => by
    rw [Checker.statement]
    exact assignment offset receiver value
  | .conditional _ test onTrue onFalse => by
    rw [Checker.statement]
    refine bind (condition test) fun _ => ite (throw _) (bind (inScope (statements onTrue)) fun _ => ?_)
    cases onFalse with
    | nil => exact pure ()
    | cons first rest => exact inScope (statements (first :: rest))
  | .switch _ subject arms => by
    rw [Checker.statement]
    exact cons fun τ => cases τ arms
  | .loop _ test body => by
    rw [Checker.statement]
    exact bind (condition test) fun _ => inScope (statements body)
  | .returning _ value => by
    rw [Checker.statement]
    refine cons fun _ => after (of_eq fun s _ _ h => ?_) fun _ => requireAssignable _ _ _
    cases h
    rfl

theorem statements : ∀ body : List Statement, Walks (blockLocals body) (blockExpressions body) (Checker.statements body)
  | [] => pure ()
  | first :: rest => by
    rw [Checker.statements]
    exact bind (statement first) fun _ => statements rest

theorem case (τ : Ty) : ∀ arm : Case, Walks arm.locals arm.expressions (Checker.case τ arm)
  | .mk _ value body => by
    rw [Checker.case]
    exact inScope (bind (caseValue τ value) fun _ => statements body)

theorem cases (τ : Ty) : ∀ arms : List Case, Walks (armLocals arms) (armExpressions arms) (Checker.cases τ arms)
  | [] => pure ()
  | arm :: rest => by
    rw [Checker.cases]
    exact bind (case τ arm) fun _ => cases τ rest

end

/-! ## §5 Functions and globals -/

/-- Each parameter is declared. -/
theorem parameters {ps : List Parameter} {types : List Ty} (hlength : types.length = ps.length) :
    Walks (ps.map fun p => (p.name, p.node.id)) [] (Checker.parameters ps types) := by
  induction ps generalizing types with
  | nil =>
    obtain rfl := List.length_eq_zero_iff.mp hlength
    exact pure ()
  | cons p rest ih =>
    cases types with
    | nil => cases hlength
    | cons τ τs =>
      rw [Checker.parameters, ← bind_assoc]
      exact bind (declare p.node p.name τ false) fun _ => ih (Nat.succ.inj hlength)

end Walks

/-- The expressions of a walk have been accepted. -/
theorem accepts_of_walk {locals : Names} {es : List Expr} (h : Walk locals es s s') : ∀ e ∈ es, Accepts e := by
  induction h with
  | stay | declare => exact List.forall_mem_nil _
  | check hcheck => exact List.forall_mem_singleton.mpr ⟨_, _, _, hcheck⟩
  | block _ ih => exact ih
  | append _ _ ih ih' => exact List.forall_mem_append.mpr ⟨ih, ih'⟩

/-- A function is defined, and then its block is walked over with no local name taken. -/
theorem walk_of_function {f : Function} {u : Unit} (h : function f s = .ok u s') : ∃ info scope,
    info.runtimeName = mangle f.name ∧ s.scope.defineFunction? info = some scope ∧
      Walk f.locals (blockExpressions f.body) { s with
        scope := scope
        table := s.table.setFunction f.node.id info
        returns := info.returns
        locals := .empty } s' := by
  obtain ⟨types, returns, scope, hlength, -, hscope, hblock⟩ := function_eq_ok h
  refine ⟨_, scope, rfl, hscope, ?_⟩
  -- The parameters share the block of the body.
  exact Walks.inScope (Walks.bind (Walks.parameters hlength) fun _ => Walks.statements f.body) _ u s' hblock

/-- The initial value of a global is an expression that is accepted. -/
theorem accepts_of_globalType {g : Global} {declared : Option Ty} {τ : Ty} (h : globalType g declared s = .ok τ s') :
    Records s s' ∧ ∀ e ∈ g.value, Accepts e := by
  obtain ⟨hvalue, -, rfl⟩ | ⟨node, items, s₁, hvalue, -, helements, rfl⟩ | ⟨e, σ, hvalue, -, -, -, hexpression⟩ :=
    globalType_cases h
  · rw [hvalue]
    exact ⟨.refl _, nofun⟩
  · obtain ⟨found, hfound, -⟩ := expressions_of_elements helements
    refine ⟨.type _ _ (records_of_expressions items hfound), ?_⟩
    rw [hvalue]
    simp only [Option.mem_some_iff, forall_eq']
    refine ⟨s, .any, { s₁ with table := s₁.table.setType node.id .any }, ?_⟩
    rw [expression, bind_of_ok (discard_eq_ok (u := ()) |>.mpr ⟨found, hfound⟩)]
    rfl
  · rw [hvalue]
    simp only [Option.mem_some_iff, forall_eq']
    exact ⟨records_of_expression e hexpression, s, σ, s', hexpression⟩

/-- The initial value of a global is checked, and then the global is defined. -/
theorem records_of_global {g : Global} {u : Unit} (h : global g s = .ok u s') : ∃ s₁ info scope,
    info.name = g.name ∧ info.runtimeName = mangle g.name ∧ Records s s₁ ∧ (∀ e ∈ g.value, Accepts e) ∧
      s₁.scope.defineVariable? info = some scope ∧
      s' = { s₁ with scope := scope, table := s₁.table.setVariable g.node.id info } := by
  obtain ⟨declared, τ, s₁, scope, -, htype, hscope, rfl⟩ := global_eq_ok h
  obtain ⟨hrecords, haccepts⟩ := accepts_of_globalType htype
  exact ⟨s₁, _, scope, rfl, rfl, hrecords, haccepts, hscope, rfl⟩

end Checker

end BlockLang
