import BlockLang.Proofs.Layout.Unplaced
import BlockLang.Proofs.Stateful

/-!
# Checking and printing without offsets

The checker takes offsets into its errors alone: without offsets, it reaches the same state, and fails with the same
errors up to offsets.  Java text has no offsets at all.

## Main statements

- `check_unplaced`: a tree has the side table that it has without offsets.
- `Java.program_unplaced`: a tree has the Java text that it has without offsets.
-/

namespace BlockLang

open Stateful

namespace Checker

/-- The second checker reaches the same state as the first one, with the same value or the same error up to offsets. -/
abbrev Unplaces {α : Type} (x y : Checker α) : Prop :=
  Translates TypingError.unplaced id id x y

namespace Unplaces

variable {α : Type}

/-! ## §1 Single steps -/

theorem setType (id : Nat) (type : Ty) : Unplaces (Checker.setType id type) (Checker.setType id type) :=
  fun _ => rfl

theorem setVariable (id : Nat) (v : VariableInfo) : Unplaces (Checker.setVariable id v) (Checker.setVariable id v) :=
  fun _ => rfl

theorem setFunction (id : Nat) (f : FunctionInfo) : Unplaces (Checker.setFunction id f) (Checker.setFunction id f) :=
  fun _ => rfl

theorem freshName (name : String) : Unplaces (Checker.freshName name) (Checker.freshName name) :=
  fun _ => rfl

theorem enterFunction (returns : Ty) : Unplaces (Checker.enterFunction returns) (Checker.enterFunction returns) :=
  fun _ => rfl

theorem inScope {x y : Checker α} (h : Unplaces x y) : Unplaces (Checker.inScope x) (Checker.inScope y) := by
  intro s
  have hs : y { s with scope := s.scope.push } = _ := h { s with scope := s.scope.push }
  unfold Checker.inScope
  simp only [id, hs]
  cases x { s with scope := s.scope.push } <;> rfl

theorem defineVariable (node : Node) (v : VariableInfo) :
    Unplaces (Checker.defineVariable node v) (Checker.defineVariable node.unplaced v) := by
  refine Translates.get_bind fun s => ?_
  rw [id]
  cases s.scope.defineVariable? v with
  | none => exact .throw (TypingError.alreadyDefined v.name node.offset)
  | some scope => exact .bind (.set { s with scope := scope }) fun _ => setVariable node.id v

theorem defineFunction (node : Node) (f : FunctionInfo) :
    Unplaces (Checker.defineFunction node f) (Checker.defineFunction node.unplaced f) := by
  refine Translates.get_bind fun s => ?_
  rw [id]
  cases s.scope.defineFunction? f with
  | none => exact .throw (TypingError.alreadyDefined f.name node.offset)
  | some scope => exact .bind (.set { s with scope := scope }) fun _ => setFunction node.id f

theorem resolveVariable (name : String) (offset : Nat) :
    Unplaces (Checker.resolveVariable name offset) (Checker.resolveVariable name 0) := by
  refine Translates.get_bind fun s => ?_
  rw [id]
  cases s.scope.findVariable? name with
  | none => exact .throw (TypingError.unknownVariable name offset)
  | some v => exact .pure v

theorem resolveFunction (name : String) (arity offset : Nat) :
    Unplaces (Checker.resolveFunction name arity offset) (Checker.resolveFunction name arity 0) := by
  refine Translates.get_bind fun s => ?_
  rw [id]
  cases s.scope.findFunction? name arity with
  | none => exact .throw (TypingError.unknownFunction name arity offset)
  | some f => exact .pure f

theorem resolveType (name : String) (offset : Nat) :
    Unplaces (Checker.resolveType name offset) (Checker.resolveType name 0) := by
  unfold Checker.resolveType
  cases Ty.ofName? name with
  | none => exact .throw (TypingError.unknownType name offset)
  | some τ => exact .pure τ

theorem resolveType? (name : Option String) (offset : Nat) :
    Unplaces (Checker.resolveType? name offset) (Checker.resolveType? name 0) := by
  cases name with
  | none => exact .pure none
  | some name => exact .bind (resolveType name offset) fun τ => .pure (some τ)

theorem requireAssignable (target found : Ty) (offset : Nat) :
    Unplaces (Checker.requireAssignable target found offset) (Checker.requireAssignable target found 0) :=
  .ite (.pure ()) (.throw (TypingError.notAssignable target found offset))

/-! ## §2 Expressions -/

theorem typeOfLiteral (value : Literal) (offset : Nat) :
    Unplaces (Checker.typeOfLiteral value offset) (Checker.typeOfLiteral value 0) := by
  cases value with
  | nil => exact .pure Ty.nil
  | boolean => exact .pure Ty.boolean
  | character => exact .pure Ty.character
  | string => exact .pure Ty.string
  | integer n => exact .ite (.pure Ty.integer) (.throw (TypingError.integerTooLarge offset))
  | decimal d => exact .ite (.throw (TypingError.decimalTooLarge offset)) (.pure Ty.decimal)

theorem requireArguments (targets found : List Ty) (arguments : List Expr) :
    Unplaces (Checker.requireArguments targets found arguments)
      (Checker.requireArguments targets found (arguments.map Expr.unplaced)) := by
  induction targets generalizing found arguments with
  | nil => exact .pure ()
  | cons target targets ih =>
    cases found with
    | nil => exact .pure ()
    | cons τ found =>
      cases arguments with
      | nil => exact .pure ()
      | cons argument rest =>
        rw [List.map_cons, Checker.requireArguments, Checker.requireArguments, argument.offset_unplaced]
        exact .bind (requireAssignable target τ argument.offset) fun _ => ih found rest

mutual

theorem expression : ∀ e : Expr, Unplaces (Checker.expression e) (Checker.expression e.unplaced)
  | .literal node value => .bind (typeOfLiteral value node.offset) fun τ => setType node.id τ
  | .group node inner => by
    rw [Expr.unplaced, Checker.expression, Checker.expression, inner.isBinary_unplaced]
    refine .ite (.bind (expression inner) fun τ => setType node.id τ) ?_
    exact .throw (TypingError.invalidGroup node.offset)
  | .binary node op left right => by
    refine .bind (expression left) fun l => .bind (expression right) fun r => ?_
    simp only [id]
    cases Ty.ofBinary? op l r with
    | none => exact .throw (TypingError.invalidOperands op l r node.offset)
    | some τ => exact setType node.id τ
  | .variable node name =>
    .bind (resolveVariable name node.offset) fun v => .bind (setVariable node.id v) fun _ => setType node.id _
  | .element node name index => by
    rw [Expr.unplaced, Checker.expression, Checker.expression, index.offset_unplaced]
    refine .bind (expression index) fun τ => .bind (requireAssignable .integer τ index.offset) fun _ => ?_
    refine .bind (resolveVariable name node.offset) fun v => .ite ?_ ?_
    · exact .bind (setVariable node.id v) fun _ => setType node.id v.type
    · exact .throw (TypingError.notAList name node.offset)
  | .call node name arguments => by
    have harguments := expressions arguments
    rw [Expr.unplaced, Checker.expression, Checker.expression]
    -- The function is looked up by the number of its arguments, which does not depend on their places.
    rw [Expr.allUnplaced_eq] at harguments ⊢
    rw [List.length_map]
    refine .bind harguments fun types => .bind (resolveFunction name arguments.length node.offset) fun f => ?_
    refine .bind (requireArguments f.parameters types arguments) fun _ => .bind (setFunction node.id f) fun _ => ?_
    exact setType node.id f.returns
  | .list node elements => .bind (.discard (expressions elements)) fun _ => setType node.id .any

theorem expressions : ∀ es : List Expr,
    Unplaces (Checker.expressions es) (Checker.expressions (Expr.allUnplaced es))
  | [] => .pure []
  | e :: rest => .bind (expression e) fun τ => .bind (expressions rest) fun τs => .pure (τ :: τs)

end

theorem elements (target : Ty) (items : List Expr) :
    Unplaces (Checker.elements target items) (Checker.elements target (items.map Expr.unplaced)) := by
  induction items with
  | nil => exact .pure ()
  | cons e rest ih =>
    rw [List.map_cons, Checker.elements, Checker.elements, e.offset_unplaced]
    exact .bind (expression e) fun τ => .bind (requireAssignable target τ e.offset) fun _ => ih

theorem condition (e : Expr) : Unplaces (Checker.condition e) (Checker.condition e.unplaced) := by
  unfold Checker.condition
  rw [e.offset_unplaced]
  exact .bind (expression e) fun τ => requireAssignable .boolean τ e.offset

theorem listElement? (e : Expr) : Unplaces (Checker.listElement? e) (Checker.listElement? e.unplaced) := by
  cases e with
  | «variable» node name =>
    refine Translates.get_bind fun s => ?_
    rw [id]
    cases s.scope.findVariable? name with
    | none => exact .pure none
    | some v => exact .pure _
  | literal | group | binary | element | call | list => exact .pure none

/-! ## §3 Statements -/

theorem declaredType (node : Node) (name : String) (value : Option Expr) (declared found aliased : Option Ty) :
    Unplaces (Checker.declaredType node name value declared found aliased)
      (Checker.declaredType node.unplaced name (value.map Expr.unplaced) declared found aliased) := by
  have hoffset : ((value.map Expr.unplaced).map Expr.offset).getD node.unplaced.offset = 0 := by
    cases value with
    | none => rfl
    | some e => exact e.offset_unplaced
  unfold Checker.declaredType
  cases declared with
  | none =>
    cases aliased with
    | some element => exact .pure (element, true)
    | none =>
      cases found with
      | none => exact .throw (TypingError.missingDeclarationType name node.offset)
      | some type => exact .pure (type, false)
  | some target =>
    cases found with
    | none => exact .pure (target, false)
    | some type =>
      simp only [hoffset]
      exact .bind (requireAssignable target type _) fun _ => .pure (target, false)

theorem declaration (node : Node) (name : String) (type : Option String) (value : Option Expr) :
    Unplaces (Checker.declaration node name type value)
      (Checker.declaration node.unplaced name type (value.map Expr.unplaced)) := by
  refine .bind (resolveType? type node.offset) fun declared => ?_
  have hrest (found : Option Ty × Option Ty) : Unplaces
      (do let chosen ← Checker.declaredType node name value declared found.1 found.2
          let runtimeName ← Checker.freshName name
          Checker.defineVariable node ⟨name, runtimeName, chosen.1, true, chosen.2⟩)
      (do let chosen ← Checker.declaredType node.unplaced name (value.map Expr.unplaced) declared found.1 found.2
          let runtimeName ← Checker.freshName name
          Checker.defineVariable node.unplaced ⟨name, runtimeName, chosen.1, true, chosen.2⟩) :=
    .bind (declaredType node name value declared found.1 found.2) fun chosen =>
      .bind (freshName name) fun runtimeName => defineVariable node ⟨name, runtimeName, chosen.1, true, chosen.2⟩
  cases value with
  | none => exact .bind (.pure (none, none)) hrest
  | some e =>
    refine .bind (expression e) fun τ => .bind (listElement? e) fun aliased => ?_
    exact .bind (.pure (some τ, aliased)) hrest

theorem storable (target found : Ty) (targetElement valueElement : Option Ty) (offset : Nat) :
    Unplaces (Checker.storable target found targetElement valueElement offset)
      (Checker.storable target found targetElement valueElement 0) := by
  unfold Checker.storable
  cases targetElement with
  | none => exact requireAssignable target found offset
  | some t =>
    cases valueElement with
    | none => exact .throw (TypingError.listRequired offset)
    | some e => exact .ite (.pure ()) (.throw (TypingError.notAssignable t e offset))

@[simp] theorem isReceiver_unplaced (e : Expr) : isReceiver e.unplaced = isReceiver e := by
  cases e <;> rfl

theorem assignment (offset : Nat) (receiver value : Expr) :
    Unplaces (Checker.assignment offset receiver value)
      (Checker.assignment 0 receiver.unplaced value.unplaced) := by
  unfold Checker.assignment
  rw [isReceiver_unplaced, value.offset_unplaced]
  refine .ite (.bind (expression receiver) fun target => .bind (expression value) fun found => ?_) ?_
  · refine .bind (listElement? receiver) fun targetElement => .bind (listElement? value) fun valueElement => ?_
    exact storable target found targetElement valueElement value.offset
  · exact .throw (TypingError.invalidReceiver offset)

theorem caseValue (type : Ty) (value : Option Expr) :
    Unplaces (Checker.caseValue type value) (Checker.caseValue type (value.map Expr.unplaced)) := by
  cases value with
  | none => exact .pure ()
  | some value =>
    rw [Option.map_some, Checker.caseValue, Checker.caseValue, value.offset_unplaced]
    refine .bind (expression value) fun found => .ite (.pure ()) ?_
    exact .throw (TypingError.notAssignable type found value.offset)

mutual

theorem statement : ∀ st : Statement, Unplaces (Checker.statement st) (Checker.statement st.unplaced)
  | .expression _ e => .discard (expression e)
  | .declaration node name type value => declaration node name type value
  | .assignment offset receiver value => assignment offset receiver value
  | .conditional offset test onTrue onFalse => by
    have htrue := statements onTrue
    have hfalse := statements onFalse
    rw [Statement.unplaced, Checker.statement, Checker.statement]
    rw [blockUnplaced_eq] at htrue hfalse ⊢
    rw [blockUnplaced_eq, List.isEmpty_map, List.isEmpty_map]
    refine .bind (condition test) fun _ => .ite (.throw (TypingError.emptyBranch offset)) ?_
    exact .bind (inScope htrue) fun _ => .ite (.pure ()) (inScope hfalse)
  | .switch _ subject arms => .bind (expression subject) fun τ => cases τ arms
  | .loop _ test body => .bind (condition test) fun _ => inScope (statements body)
  | .returning _ value => by
    rw [Statement.unplaced, Checker.statement, Checker.statement, value.offset_unplaced]
    exact .bind (expression value) fun found => Translates.get_bind fun s => requireAssignable _ found value.offset

theorem statements : ∀ body : List Statement,
    Unplaces (Checker.statements body) (Checker.statements (blockUnplaced body))
  | [] => .pure ()
  | first :: rest => .bind (statement first) fun _ => statements rest

theorem case (type : Ty) : ∀ arm : Case, Unplaces (Checker.case type arm) (Checker.case type arm.unplaced)
  | .mk _ value body => inScope (.bind (caseValue type value) fun _ => statements body)

theorem cases (type : Ty) : ∀ arms : List Case,
    Unplaces (Checker.cases type arms) (Checker.cases type (armsUnplaced arms))
  | [] => .pure ()
  | arm :: rest => .bind (case type arm) fun _ => cases type rest

end

/-! ## §4 Programs -/

theorem globalType (g : Global) (declared : Option Ty) :
    Unplaces (Checker.globalType g declared) (Checker.globalType g.unplaced declared) := by
  obtain ⟨node, name, mutable, type, value⟩ := g
  unfold Checker.globalType Global.unplaced
  cases value with
  | none =>
    cases declared with
    | none => exact .throw (TypingError.missingDeclarationType name node.offset)
    | some target => exact .pure target
  | some e =>
    cases e with
    | list list items =>
      simp only [Option.map_some, Expr.unplaced, Expr.allUnplaced_eq]
      exact .bind (elements _ items) fun _ => setType list.id _
    | literal | group | binary | «variable» | element | call =>
      refine .bind (expression _) fun found => ?_
      cases declared with
      | none => exact .pure found
      | some target =>
        exact .ite (.pure target) (.throw (TypingError.variableMismatch name target found node.offset))

theorem global (g : Global) : Unplaces (Checker.global g) (Checker.global g.unplaced) := by
  unfold Checker.global
  rw [g.isList_unplaced]
  refine .bind (resolveType? g.type g.node.offset) fun declared => .bind (globalType g declared) fun τ => ?_
  exact defineVariable g.node ⟨g.name, mangle g.name, τ, g.mutable, g.isList⟩

theorem parameterTypes (ps : List Parameter) :
    Unplaces (Checker.parameterTypes ps) (Checker.parameterTypes (ps.map Parameter.unplaced)) := by
  induction ps with
  | nil => exact .pure []
  | cons p rest ih => exact .bind (resolveType p.type p.node.offset) fun τ => .bind ih fun τs => .pure (τ :: τs)

theorem returnType (f : Function) : Unplaces (Checker.returnType f) (Checker.returnType f.unplaced) := by
  have hreturns : f.unplaced.returns = f.returns := rfl
  unfold Checker.returnType
  rw [f.isEntry_unplaced, hreturns]
  cases f.returns with
  | none => exact .pure _
  | some name => exact resolveType name f.node.offset

theorem parameters (ps : List Parameter) (types : List Ty) :
    Unplaces (Checker.parameters ps types) (Checker.parameters (ps.map Parameter.unplaced) types) := by
  induction ps generalizing types with
  | nil => exact .pure ()
  | cons p rest ih =>
    cases types with
    | nil => exact .pure ()
    | cons τ types =>
      refine .bind (freshName p.name) fun runtimeName => ?_
      exact .bind (defineVariable p.node ⟨p.name, runtimeName, τ, true, false⟩) fun _ => ih types

theorem function (f : Function) : Unplaces (Checker.function f) (Checker.function f.unplaced) := by
  have hbody := statements f.body
  rw [blockUnplaced_eq] at hbody
  refine .bind (parameterTypes f.parameters) fun types => .bind (returnType f) fun returns => ?_
  refine .bind (defineFunction f.node ⟨f.name, mangle f.name, types, returns⟩) fun _ => ?_
  refine .bind (enterFunction returns) fun _ => inScope (.bind (parameters f.parameters types) fun _ => hbody)

theorem entryPoint (p : Program) : Unplaces (Checker.entryPoint p) (Checker.entryPoint p.unplaced) := by
  have hfind : p.unplaced.functions.find? Function.isEntry =
      (p.functions.find? Function.isEntry).map Function.unplaced := by
    change (p.functions.map Function.unplaced).find? Function.isEntry = _
    rw [List.find?_map]
    congr 2
    exact funext Function.isEntry_unplaced
  unfold Checker.entryPoint
  rw [hfind]
  cases p.functions.find? Function.isEntry with
  | none => exact .throw TypingError.missingMain
  | some main =>
    refine .bind (returnType main) fun returns => .ite (.pure ()) ?_
    exact .throw (TypingError.invalidMainReturn returns main.node.offset)

theorem globals (gs : List Global) : Unplaces (Checker.globals gs) (Checker.globals (gs.map Global.unplaced)) := by
  induction gs with
  | nil => exact .pure ()
  | cons g rest ih => exact .bind (global g) fun _ => ih

theorem functions (fs : List Function) :
    Unplaces (Checker.functions fs) (Checker.functions (fs.map Function.unplaced)) := by
  induction fs with
  | nil => exact .pure ()
  | cons f rest ih => exact .bind (function f) fun _ => ih

theorem program (p : Program) : Unplaces (Checker.program p) (Checker.program p.unplaced) :=
  .bind (entryPoint p) fun _ => .bind (globals p.globals) fun _ => functions p.functions

end Unplaces

end Checker

/-- A tree has the side table that it has without offsets, or is refused with the same error up to its offset. -/
theorem check_unplaced (bs : List FunctionInfo) (p : Program) :
    check bs p.unplaced = (check bs p).mapError TypingError.unplaced := by
  have hrun : Checker.program p.unplaced (.withFunctions bs) = _ := Checker.Unplaces.program p (.withFunctions bs)
  unfold check EStateM.run
  rw [hrun]
  cases Checker.program p (.withFunctions bs) <;> rfl

/-! ## §5 Java -/

namespace Java

variable (t : SideTable)

mutual

theorem expression_unplaced : ∀ e : Expr, expression t e.unplaced = expression t e
  | .literal _ _ | .variable _ _ => rfl
  | .group _ inner => by
    rw [Expr.unplaced, expression, expression, expression_unplaced inner]
  | .binary _ op left right => by
    rw [Expr.unplaced, expression, expression, expression_unplaced left, expression_unplaced right]
    rfl
  | .element _ name index => by
    rw [Expr.unplaced, expression, expression, expression_unplaced index]
    rfl
  | .call _ name arguments => by
    rw [Expr.unplaced, expression, expression, expressions_unplaced arguments]
    rfl
  | .list _ elements => by
    rw [Expr.unplaced, expression, expression, expressions_unplaced elements]

theorem expressions_unplaced : ∀ es : List Expr, expressions t (Expr.allUnplaced es) = expressions t es
  | [] => rfl
  | e :: rest => by
    rw [Expr.allUnplaced, expressions, expressions, expression_unplaced e, expressions_unplaced rest]

end

theorem initializer_unplaced (value : Option Expr) : initializer t (value.map Expr.unplaced) = initializer t value := by
  cases value with
  | none => rfl
  | some e => rw [Option.map_some, initializer, initializer, expression_unplaced]

mutual

theorem statement_unplaced : ∀ (st : Statement) (indent : Nat), statement t indent st.unplaced = statement t indent st
  | .expression _ e, indent | .returning _ e, indent => by
    rw [Statement.unplaced, statement, statement, expression_unplaced]
  | .declaration node name _ value, indent => by
    rw [Statement.unplaced, statement, statement, initializer_unplaced]
    rfl
  | .assignment _ receiver value, indent => by
    rw [Statement.unplaced, statement, statement, expression_unplaced, expression_unplaced]
  | .conditional _ condition onTrue onFalse, indent => by
    have hempty : (blockUnplaced onFalse).isEmpty = onFalse.isEmpty := by rw [blockUnplaced_eq, List.isEmpty_map]
    rw [Statement.unplaced, statement, statement, expression_unplaced, statements_unplaced onTrue,
      statements_unplaced onFalse, hempty]
  | .switch _ condition cases, indent => by
    rw [Statement.unplaced, statement, statement, expression_unplaced, arms_unplaced cases]
  | .loop _ condition body, indent => by
    rw [Statement.unplaced, statement, statement, expression_unplaced, statements_unplaced body]

theorem statements_unplaced : ∀ (body : List Statement) (indent : Nat),
    statements t indent (blockUnplaced body) = statements t indent body
  | [], _ => rfl
  | first :: rest, indent => by
    rw [blockUnplaced, statements, statements, statement_unplaced first, statements_unplaced rest]

theorem arm_unplaced : ∀ (c : Case) (indent : Nat), arm t indent c.unplaced = arm t indent c
  | .mk _ none body, indent => by
    rw [Case.unplaced, Option.map_none, arm, arm, statements_unplaced body]
  | .mk _ (some value) body, indent => by
    rw [Case.unplaced, Option.map_some, arm, arm, expression_unplaced, statements_unplaced body]

theorem arms_unplaced : ∀ (cases : List Case) (indent : Nat), arms t indent (armsUnplaced cases) = arms t indent cases
  | [], _ => rfl
  | first :: rest, indent => by
    rw [armsUnplaced, arms, arms, arm_unplaced first, arms_unplaced rest]

end

theorem global_unplaced (g : Global) : global t g.unplaced = global t g := by
  unfold global
  rw [g.isList_unplaced]
  simp only [Global.unplaced, initializer_unplaced]
  rfl

theorem globals_unplaced (gs : List Global) : globals t (gs.map Global.unplaced) = globals t gs := by
  cases gs with
  | nil => rfl
  | cons g rest =>
    rw [List.map_cons, globals, globals, ← List.map_cons, List.map_map]
    congr 2
    exact funext fun g => congrArg (Line.mk 1) (global_unplaced t g)

theorem function_unplaced (f : Function) : function t f.unplaced = function t f := by
  have hbody := statements_unplaced t f.body 2
  rw [blockUnplaced_eq] at hbody
  unfold function Function.unplaced
  simp only [hbody, List.map_map]
  rfl

/-- A tree has the Java text that it has without offsets. -/
theorem program_unplaced (p : Program) : program t p.unplaced = program t p := by
  have hfunctions : p.unplaced.functions.flatMap (fun f => .blank :: function t f) =
      p.functions.flatMap fun f => .blank :: function t f := by
    change (p.functions.map Function.unplaced).flatMap _ = _
    rw [List.flatMap_map]
    congr 1
    exact funext fun f => congrArg (List.cons Line.blank) (function_unplaced t f)
  have hglobals : globals t p.unplaced.globals = globals t p.globals := globals_unplaced t p.globals
  unfold program programLines
  rw [hfunctions, hglobals]

end Java

end BlockLang
