import BlockLang.Proofs.Stateful
import BlockLang.Typing.Program

/-!
# What a check sees and what it changes

A checker sees of the scope what its names stand for, and of the side table nothing.  Whether it succeeds or fails,
checking an expression leaves the scope as it is, and checking a statement changes the innermost block alone.  Both
facts are proved in one pass over the checker: each of its functions is confined, from states that look alike, to a
view of the scope.

## Main definitions

- `CheckerState.Alike`: states in which names stand for the same, the second without some of the entries of the first.
- `Scope.around?`: the scope around the innermost block.

## Main statements

- `Checker.confined_function`, `Checker.confined_program`: so is the checking of a function and of a program, whatever
  function was checked before it.
-/

namespace BlockLang

open Stateful

/-! ## §1 Frames and scopes that look alike -/

/-- Two options are related if they are empty together and their values are related. -/
theorem rel_of_none_iff {α β : Type} {R : α → β → Prop} {x : Option α} {y : Option β} (hnone : x = none ↔ y = none)
    (hsome : ∀ a b, x = some a → y = some b → R a b) : Option.Rel R x y := by
  cases x with
  | none =>
    rw [hnone.mp rfl]
    exact .none
  | some a =>
    cases y with
    | none => cases hnone.mpr rfl
    | some b => exact .some (hsome a b rfl rfl)

namespace Frame

variable {V F : Type}

/-- Two frames have the same definitions. -/
structure Same (f g : Frame V F) : Prop where
  findVariable : f.findVariable? = g.findVariable?
  findFunction : f.findFunction? = g.findFunction?

variable {f g f' g' : Frame V F}

theorem Same.refl (f : Frame V F) : f.Same f :=
  ⟨rfl, rfl⟩

/-- Frames with the same definitions take or refuse a variable alike. -/
theorem Same.defineVariable? (h : f.Same g) (name : String) (v : V) :
    Option.Rel Same (f.defineVariable? name v) (g.defineVariable? name v) := by
  refine rel_of_none_iff ?_ fun f' g' hf hg => ⟨funext fun m => ?_, funext fun m => funext fun k => ?_⟩
  · rw [defineVariable?_eq_none_iff, defineVariable?_eq_none_iff, h.findVariable]
  · rw [findVariable?_of_defineVariable? hf, findVariable?_of_defineVariable? hg, h.findVariable]
  · rw [findFunction?_of_defineVariable? hf, findFunction?_of_defineVariable? hg, h.findFunction]

/-- Frames with the same definitions take or refuse a function alike. -/
theorem Same.defineFunction? (h : f.Same g) (name : String) (arity : Nat) (fn : F) :
    Option.Rel Same (f.defineFunction? name arity fn) (g.defineFunction? name arity fn) := by
  refine rel_of_none_iff ?_ fun f' g' hf hg => ⟨funext fun m => ?_, funext fun m => funext fun k => ?_⟩
  · rw [defineFunction?_eq_none_iff, defineFunction?_eq_none_iff, h.findFunction]
  · rw [findVariable?_of_defineFunction? hf, findVariable?_of_defineFunction? hg, h.findVariable]
  · rw [findFunction?_of_defineFunction? hf, findFunction?_of_defineFunction? hg, h.findFunction]

end Frame

namespace Scope

/-- Two scopes have the same definitions in the root and the same open blocks. -/
structure Same (a b : Scope) : Prop where
  root : a.root.Same b.root
  inner : a.inner = b.inner

variable {a b : Scope}

theorem Same.findVariable? (h : a.Same b) (name : String) : a.findVariable? name = b.findVariable? name := by
  unfold Scope.findVariable? frames
  rw [List.findSome?_append, List.findSome?_append, h.inner, List.findSome?_singleton, List.findSome?_singleton,
    h.root.findVariable]

theorem Same.findFunction? (h : a.Same b) (name : String) (arity : Nat) :
    a.findFunction? name arity = b.findFunction? name arity := by
  unfold Scope.findFunction? frames
  rw [List.findSome?_append, List.findSome?_append, h.inner, List.findSome?_singleton, List.findSome?_singleton,
    h.root.findFunction]

theorem Same.push (h : a.Same b) : a.push.Same b.push :=
  ⟨h.root, congrArg (List.cons _) h.inner⟩

theorem Same.pop (h : a.Same b) : a.pop.Same b.pop :=
  ⟨h.root, congrArg (List.drop 1) h.inner⟩

/-- A change of the innermost frame that frames with the same definitions take alike. -/
theorem Same.updateInnermost? (h : a.Same b) {change : StaticFrame → Option StaticFrame}
    (hchange : ∀ f g, Frame.Same f g → Option.Rel Frame.Same (change f) (change g)) :
    Option.Rel Same (a.updateInnermost? change) (b.updateInnermost? change) := by
  unfold Scope.updateInnermost?
  rw [h.inner]
  cases b.inner with
  | nil =>
    have hroot := hchange _ _ h.root
    generalize change a.root = x at hroot ⊢
    generalize change b.root = y at hroot ⊢
    cases hroot with
    | none => exact .none
    | some hsame => exact .some ⟨hsame, rfl⟩
  | cons f outer =>
    simp only
    cases change f with
    | none => exact .none
    | some g => exact .some ⟨h.root, rfl⟩

/-- The scope around the innermost block, if a block is open. -/
def around? (s : Scope) : Option Scope :=
  match s.inner with
  | [] => none
  | _ :: outer => some ⟨s.root, outer⟩

/-- Closing the innermost block leaves the scope around it. -/
theorem pop_of_around? {s t : Scope} (h : s.around? = some t) : s.pop = t := by
  unfold around? at h
  cases hinner : s.inner with
  | nil =>
    rw [hinner] at h
    cases h
  | cons f outer =>
    rw [hinner] at h
    cases h
    unfold pop
    rw [hinner]
    rfl

theorem around?_eq_none_iff {s : Scope} : s.around? = none ↔ s.inner = [] := by
  unfold around?
  cases s.inner <;> simp

/-- A change of the innermost frame leaves the scope around it. -/
theorem around?_of_updateInnermost? {s t : Scope} {change : StaticFrame → Option StaticFrame}
    (h : s.updateInnermost? change = some t) : t.around? = s.around? := by
  unfold updateInnermost? at h
  cases hinner : s.inner with
  | nil =>
    rw [hinner] at h
    obtain ⟨f, -, rfl⟩ := Option.map_eq_some_iff.mp h
    rw [around?, around?, hinner]
  | cons f outer =>
    rw [hinner] at h
    obtain ⟨g, -, rfl⟩ := Option.map_eq_some_iff.mp h
    rw [around?, around?, hinner]

end Scope

/-! ## §2 States that look alike -/

/-- The entries of one table, recorded after those of another. -/
def SideTable.over (t base : SideTable) : SideTable :=
  ⟨t.types ++ base.types, t.vars ++ base.vars, t.funs ++ base.funs⟩

namespace CheckerState

/-- What a state knows about the function being checked: its return type, and the runtime names that are taken. -/
def current (s : CheckerState) : Ty × LocalNames :=
  (s.returns, s.locals)

/-- Names stand for the same in both states.  The first one has further entries below those of the second one, and what
the states know about the function being checked is related as given. -/
structure Alike (base : SideTable) (P : Ty × LocalNames → Ty × LocalNames → Prop) (s t : CheckerState) : Prop where
  scope : s.scope.Same t.scope
  table : s.table = t.table.over base
  current : P s.current t.current

end CheckerState

namespace Checker

variable {base : SideTable} {P : Ty × LocalNames → Ty × LocalNames → Prop} {α : Type} {x : Checker α}

/-- Checkers that leave the scope as it is. -/
abbrev Neutral (base : SideTable) (P : Ty × LocalNames → Ty × LocalNames → Prop) (x : Checker α) : Prop :=
  Confined (CheckerState.Alike base P) CheckerState.scope x

/-- Checkers that change the innermost block alone. -/
abbrev Inside (base : SideTable) (P : Ty × LocalNames → Ty × LocalNames → Prop) (x : Checker α) : Prop :=
  Confined (CheckerState.Alike base P) (fun s => s.scope.around?) x

theorem inside_of_neutral (h : Neutral base P x) : Inside base P x :=
  h.coarsen Scope.around?

/-! ## §3 Single steps -/

theorem confined_setType (id : Nat) (τ : Ty) : Neutral base P (setType id τ) where
  keeps _ := rfl
  agrees _ _ h := .ok τ ⟨h.scope, congrArg (SideTable.setType · id τ) h.table, h.current⟩

theorem confined_setVariable (id : Nat) (v : VariableInfo) : Neutral base P (setVariable id v) where
  keeps _ := rfl
  agrees _ _ h := .ok () ⟨h.scope, congrArg (SideTable.setVariable · id v) h.table, h.current⟩

theorem confined_setFunction (id : Nat) (f : FunctionInfo) : Neutral base P (setFunction id f) where
  keeps _ := rfl
  agrees _ _ h := .ok () ⟨h.scope, congrArg (SideTable.setFunction · id f) h.table, h.current⟩

theorem confined_resolveVariable (name : String) (offset : Nat) : Neutral base P (resolveVariable name offset) := by
  refine .get_bind (fun s => ?_) fun s t h => by rw [h.scope.findVariable?]
  cases s.scope.findVariable? name with
  | none => exact .throw _
  | some v => exact .pure v

theorem confined_resolveFunction (name : String) (arity offset : Nat) :
    Neutral base P (resolveFunction name arity offset) := by
  refine .get_bind (fun s => ?_) fun s t h => by rw [h.scope.findFunction?]
  cases s.scope.findFunction? name arity with
  | none => exact .throw _
  | some f => exact .pure f

theorem confined_resolveType (name : String) (offset : Nat) : Neutral base P (resolveType name offset) := by
  unfold resolveType
  cases Ty.ofName? name with
  | none => exact .throw _
  | some τ => exact .pure τ

theorem confined_resolveType? (name : Option String) (offset : Nat) : Neutral base P (resolveType? name offset) := by
  cases name with
  | none => exact .pure none
  | some name => exact .bind (confined_resolveType name offset) fun τ => .pure (some τ)

theorem confined_requireAssignable (target found : Ty) (offset : Nat) :
    Neutral base P (requireAssignable target found offset) :=
  .ite (.pure ()) (.throw _)

/-- A definition in the innermost frame, refused or taken alike in scopes that look alike, and recorded. -/
theorem confined_definition {change : StaticFrame → Option StaticFrame} (e : TypingError)
    (record : SideTable → SideTable)
    (hchange : ∀ f g, Frame.Same f g → Option.Rel Frame.Same (change f) (change g))
    (hrecord : ∀ t, record (t.over base) = (record t).over base) :
    Inside base P (do
      let s ← get
      match s.scope.updateInnermost? change with
      | none => throw e
      | some scope =>
        set { s with scope := scope }
        modify fun s => { s with table := record s.table }) where
  keeps s := by
    rw [get_bind]
    cases hdefine : s.scope.updateInnermost? change with
    | none => rfl
    | some scope => exact Scope.around?_of_updateInnermost? hdefine
  agrees s t h := by
    rw [get_bind, get_bind]
    have hdefine := h.scope.updateInnermost? hchange
    generalize s.scope.updateInnermost? change = a at hdefine ⊢
    generalize t.scope.updateInnermost? change = b at hdefine ⊢
    cases hdefine with
    | none => exact .error _ h
    | some hsame => exact .ok () ⟨hsame, (congrArg record h.table).trans (hrecord _), h.current⟩

theorem confined_defineVariable (node : Node) (v : VariableInfo) : Inside base P (defineVariable node v) :=
  confined_definition (.alreadyDefined v.name node.offset) (SideTable.setVariable · node.id v)
    (fun _ _ hsame => hsame.defineVariable? v.name v) fun _ => rfl

theorem confined_defineFunction (node : Node) (f : FunctionInfo) : Inside base P (defineFunction node f) :=
  confined_definition (.alreadyDefined f.name node.offset) (SideTable.setFunction · node.id f)
    (fun _ _ hsame => hsame.defineFunction? f.name f.arity f) fun _ => rfl

/-- A block is closed again however its body ends, so the whole scope is as before. -/
theorem confined_inScope (hx : Inside base P x) : Neutral base P (inScope x) where
  keeps s := by
    have hs := Scope.pop_of_around? (hx.keeps { s with scope := s.scope.push })
    unfold inScope
    cases hrun : x { s with scope := s.scope.push } with
    | ok a t | error e t =>
      rw [hrun] at hs
      exact hs
  agrees s t h := by
    have hst := hx.agrees { s with scope := s.scope.push } { t with scope := t.scope.push }
      ⟨h.scope.push, h.table, h.current⟩
    unfold inScope
    generalize x { s with scope := s.scope.push } = o at hst ⊢
    generalize x { t with scope := t.scope.push } = o' at hst ⊢
    cases hst with
    | ok a h => exact .ok a ⟨h.scope.pop, h.table, h.current⟩
    | error e h => exact .error e ⟨h.scope.pop, h.table, h.current⟩

/-! ## §4 Expressions -/

theorem confined_typeOfLiteral (value : Literal) (offset : Nat) : Neutral base P (typeOfLiteral value offset) := by
  cases value with
  | nil | boolean | character | string => exact .pure _
  | integer => exact .ite (.pure _) (.throw _)
  | decimal => exact .ite (.throw _) (.pure _)

theorem confined_requireArguments (targets found : List Ty) (arguments : List Expr) :
    Neutral base P (requireArguments targets found arguments) := by
  induction targets generalizing found arguments with
  | nil => exact .pure ()
  | cons target targets ih =>
    cases found with
    | nil => exact .pure ()
    | cons τ found =>
      cases arguments with
      | nil => exact .pure ()
      | cons argument rest => exact .bind (confined_requireAssignable target τ _) fun _ => ih found rest

mutual

theorem confined_expression : ∀ e : Expr, Neutral base P (expression e)
  | .literal node value => .bind (confined_typeOfLiteral value node.offset) fun τ => confined_setType node.id τ
  | .group node inner => by
    rw [expression]
    exact .ite (.bind (confined_expression inner) fun τ => confined_setType node.id τ) (.throw _)
  | .binary node op left right => by
    refine .bind (confined_expression left) fun l => .bind (confined_expression right) fun r => ?_
    cases Ty.ofBinary? op l r with
    | none => exact .throw _
    | some τ => exact confined_setType node.id τ
  | .variable node name =>
    .bind (confined_resolveVariable name node.offset) fun v =>
      .bind (confined_setVariable node.id v) fun _ => confined_setType node.id _
  | .element node name index => by
    refine .bind (confined_expression index) fun τ => ?_
    refine .bind (confined_requireAssignable .integer τ index.offset) fun _ => ?_
    refine .bind (confined_resolveVariable name node.offset) fun v => .ite ?_ (.throw _)
    exact .bind (confined_setVariable node.id v) fun _ => confined_setType node.id v.type
  | .call node name arguments => by
    refine .bind (confined_expressions arguments) fun types => ?_
    refine .bind (confined_resolveFunction name arguments.length node.offset) fun f => ?_
    refine .bind (confined_requireArguments f.parameters types arguments) fun _ => ?_
    exact .bind (confined_setFunction node.id f) fun _ => confined_setType node.id f.returns
  | .list node elements => .bind (.discard (confined_expressions elements)) fun _ => confined_setType node.id .any

theorem confined_expressions : ∀ es : List Expr, Neutral base P (expressions es)
  | [] => .pure []
  | e :: rest => .bind (confined_expression e) fun τ => .bind (confined_expressions rest) fun τs => .pure (τ :: τs)

end

theorem confined_elements (target : Ty) (items : List Expr) : Neutral base P (elements target items) := by
  induction items with
  | nil => exact .pure ()
  | cons e rest ih =>
    exact .bind (confined_expression e) fun τ => .bind (confined_requireAssignable target τ e.offset) fun _ => ih

theorem confined_condition (e : Expr) : Neutral base P (condition e) :=
  .bind (confined_expression e) fun τ => confined_requireAssignable .boolean τ e.offset

theorem confined_listElement? (e : Expr) : Neutral base P (listElement? e) := by
  cases e with
  | «variable» node name =>
    refine .get_bind (fun s => ?_) fun s t h => by rw [h.scope.findVariable?]
    cases s.scope.findVariable? name with
    | none => exact .pure none
    | some v => exact .pure _
  | literal | group | binary | element | call | list => exact .pure none

/-! ## §5 Statements

From here on, the function being checked must look the same too: its return type decides what may be returned, and its
taken names decide the names of its locals. -/

theorem confined_freshName (name : String) : Inside base Eq (freshName name) where
  keeps _ := rfl
  agrees s t h := by
    have hreturns : s.returns = t.returns := congrArg Prod.fst h.current
    have hlocals : s.locals = t.locals := congrArg Prod.snd h.current
    change Alongside _ (.ok (s.locals.fresh name).1 { s with locals := (s.locals.fresh name).2 })
      (.ok (t.locals.fresh name).1 { t with locals := (t.locals.fresh name).2 })
    rw [hlocals]
    exact .ok _ ⟨h.scope, h.table, Prod.ext hreturns rfl⟩

theorem confined_declaredType (node : Node) (name : String) (value : Option Expr)
    (declared found aliased : Option Ty) :
    Neutral base P (declaredType node name value declared found aliased) := by
  unfold declaredType
  cases declared with
  | none =>
    cases aliased with
    | some element => exact .pure (element, true)
    | none =>
      cases found with
      | none => exact .throw _
      | some type => exact .pure (type, false)
  | some target =>
    cases found with
    | none => exact .pure (target, false)
    | some type => exact .bind (confined_requireAssignable target type _) fun _ => .pure (target, false)

theorem confined_declaration (node : Node) (name : String) (type : Option String) (value : Option Expr) :
    Inside base Eq (declaration node name type value) := by
  refine .bind (inside_of_neutral (confined_resolveType? type node.offset)) fun declared => ?_
  have hrest (found : Option Ty × Option Ty) : Inside base Eq
      (do let chosen ← declaredType node name value declared found.1 found.2
          let runtimeName ← freshName name
          defineVariable node ⟨name, runtimeName, chosen.1, true, chosen.2⟩) :=
    .bind (inside_of_neutral (confined_declaredType node name value declared found.1 found.2)) fun chosen =>
      .bind (confined_freshName name) fun runtimeName => confined_defineVariable node _
  cases value with
  | none => exact .bind (.pure (none, none)) hrest
  | some e =>
    refine .bind (inside_of_neutral (confined_expression e)) fun τ => ?_
    refine .bind (inside_of_neutral (confined_listElement? e)) fun aliased => ?_
    exact .bind (.pure (some τ, aliased)) hrest

theorem confined_storable (target found : Ty) (targetElement valueElement : Option Ty) (offset : Nat) :
    Neutral base P (storable target found targetElement valueElement offset) := by
  unfold storable
  cases targetElement with
  | none => exact confined_requireAssignable target found offset
  | some t =>
    cases valueElement with
    | none => exact .throw _
    | some e => exact .ite (.pure ()) (.throw _)

theorem confined_assignment (offset : Nat) (receiver value : Expr) :
    Neutral base P (assignment offset receiver value) := by
  refine .ite (.bind (confined_expression receiver) fun target => ?_) (.throw _)
  refine .bind (confined_expression value) fun found => .bind (confined_listElement? receiver) fun targetElement => ?_
  exact .bind (confined_listElement? value) fun valueElement => confined_storable target found _ _ value.offset

theorem confined_caseValue (type : Ty) (value : Option Expr) : Neutral base P (caseValue type value) := by
  cases value with
  | none => exact .pure ()
  | some value => exact .bind (confined_expression value) fun found => .ite (.pure ()) (.throw _)

mutual

theorem confined_statement : ∀ st : Statement, Inside base Eq (statement st)
  | .expression _ e => inside_of_neutral (.discard (confined_expression e))
  | .declaration node name type value => confined_declaration node name type value
  | .assignment offset receiver value => inside_of_neutral (confined_assignment offset receiver value)
  | .conditional offset test onTrue onFalse => by
    rw [statement]
    refine inside_of_neutral (.bind (confined_condition test) fun _ => .ite (.throw _) ?_)
    refine .bind (confined_inScope (confined_statements onTrue)) fun _ => .ite (.pure ()) ?_
    exact confined_inScope (confined_statements onFalse)
  | .switch _ subject arms =>
    inside_of_neutral (.bind (confined_expression subject) fun τ => confined_cases τ arms)
  | .loop _ test body =>
    inside_of_neutral (.bind (confined_condition test) fun _ => confined_inScope (confined_statements body))
  | .returning _ value => by
    refine inside_of_neutral (.bind (confined_expression value) fun found => ?_)
    refine .get_bind (fun s => confined_requireAssignable s.returns found value.offset) fun s t h => ?_
    have hreturns : s.returns = t.returns := congrArg Prod.fst h.current
    rw [hreturns]

theorem confined_statements : ∀ body : List Statement, Inside base Eq (statements body)
  | [] => .pure ()
  | first :: rest => .bind (confined_statement first) fun _ => confined_statements rest

theorem confined_case (type : Ty) : ∀ arm : Case, Neutral base Eq (case type arm)
  | .mk _ value body =>
    confined_inScope (.bind (inside_of_neutral (confined_caseValue type value)) fun _ => confined_statements body)

theorem confined_cases (type : Ty) : ∀ arms : List Case, Neutral base Eq (cases type arms)
  | [] => .pure ()
  | arm :: rest => .bind (confined_case type arm) fun _ => confined_cases type rest

end

/-! ## §6 Programs -/

theorem confined_globalType (g : Global) (declared : Option Ty) : Neutral base P (globalType g declared) := by
  unfold globalType
  cases g.value with
  | none =>
    cases declared with
    | none => exact .throw _
    | some target => exact .pure target
  | some e =>
    cases e with
    | list list items => exact .bind (confined_elements _ items) fun _ => confined_setType list.id _
    | literal | group | binary | «variable» | element | call =>
      refine .bind (confined_expression _) fun found => ?_
      cases declared with
      | none => exact .pure found
      | some target => exact .ite (.pure target) (.throw _)

theorem confined_global (g : Global) : Inside base P (global g) :=
  .bind (inside_of_neutral (confined_resolveType? g.type g.node.offset)) fun declared =>
    .bind (inside_of_neutral (confined_globalType g declared)) fun _ => confined_defineVariable g.node _

theorem confined_parameterTypes (ps : List Parameter) : Neutral base P (parameterTypes ps) := by
  induction ps with
  | nil => exact .pure []
  | cons p rest ih =>
    exact .bind (confined_resolveType p.type p.node.offset) fun τ => .bind ih fun τs => .pure (τ :: τs)

theorem confined_returnType (f : Function) : Neutral base P (returnType f) := by
  unfold returnType
  cases f.returns with
  | none => exact .pure _
  | some name => exact confined_resolveType name f.node.offset

theorem confined_parameters (ps : List Parameter) (types : List Ty) : Inside base Eq (parameters ps types) := by
  induction ps generalizing types with
  | nil => exact .pure ()
  | cons p rest ih =>
    cases types with
    | nil => exact .pure ()
    | cons τ types =>
      refine .bind (confined_freshName p.name) fun runtimeName => ?_
      exact .bind (confined_defineVariable p.node _) fun _ => ih types

/-- The block of a function is checked after the state has been prepared for it. -/
theorem confined_functionBlock (f : Function) (types : List Ty) :
    Neutral base Eq (inScope do parameters f.parameters types; statements f.body) :=
  confined_inScope (.bind (confined_parameters f.parameters types) fun _ => confined_statements f.body)

/-- States need not agree in what they know about a function that was checked before. -/
abbrev Anyhow : Ty × LocalNames → Ty × LocalNames → Prop :=
  fun _ _ => True

/-- What a state knows about the function being checked is set anew for every function. -/
theorem confined_enterFunction {body : Checker α} (returns : Ty) (hbody : Neutral base Eq body) :
    Neutral base Anyhow (enterFunction returns >>= fun _ => body) where
  keeps s := hbody.keeps { s with returns := returns, locals := .empty }
  agrees s t h := by
    have hentered := hbody.agrees { s with returns := returns, locals := .empty }
      { t with returns := returns, locals := .empty } ⟨h.scope, h.table, rfl⟩
    exact hentered.mono fun s t h => ⟨h.scope, h.table, trivial⟩

/-- Checking a function does not depend on the function checked before it. -/
theorem confined_function (f : Function) : Inside base Anyhow (function f) := by
  refine .bind (inside_of_neutral (confined_parameterTypes f.parameters)) fun types => ?_
  refine .bind (inside_of_neutral (confined_returnType f)) fun returns => ?_
  refine .bind (confined_defineFunction f.node _) fun _ => ?_
  exact inside_of_neutral (confined_enterFunction returns (confined_functionBlock f types))

theorem confined_entryPoint (p : Program) : Neutral base P (entryPoint p) := by
  unfold entryPoint
  cases p.functions.find? Function.isEntry with
  | none => exact .throw _
  | some main => exact .bind (confined_returnType main) fun returns => .ite (.pure ()) (.throw _)

theorem confined_globals (gs : List Global) : Inside base P (globals gs) := by
  induction gs with
  | nil => exact .pure ()
  | cons g rest ih => exact .bind (confined_global g) fun _ => ih

theorem confined_functions (fs : List Function) : Inside base Anyhow (functions fs) := by
  induction fs with
  | nil => exact .pure ()
  | cons f rest ih => exact .bind (confined_function f) fun _ => ih

/-- Checking a program does not depend on what was checked before it, apart from the definitions in the scope. -/
theorem confined_program (p : Program) : Inside base Anyhow (program p) :=
  .bind (inside_of_neutral (confined_entryPoint p)) fun _ =>
    .bind (confined_globals p.globals) fun _ => confined_functions p.functions

end Checker

end BlockLang
