import BlockLang.Pipeline
import BlockLang.Proofs.Typing.Lexical
import Mathlib.Data.List.Forall2

/-!
# Typing rules

The typing rules of the language, stated of a finished side table instead of the walk that fills it.  An access has
the type of the variable that its declaration got in the table, a call the return type of the function its name and
number of arguments select.  Every rule also says that the table has the type of the expression it is about.

## Main definitions

- `HasType`: an expression has a static type in a context.
- `Supplies`: the value of an expression may be held by a variable of a type that holds a list or holds none.
- `Checks`, `ChecksAll`, `ChecksArms`: statements obey the rules in a context.
- `FunctionTyped`, `GlobalsTyped`, `ProgramTyped`: so do functions, globals and a whole program.
-/

namespace BlockLang

/-- The static type of a literal. -/
def Literal.type : Literal → Ty
  | .nil => .nil
  | .boolean _ => .boolean
  | .integer _ => .integer
  | .decimal _ => .decimal
  | .character _ => .character
  | .string _ => .string

/-- The static type of a variable that is read as a whole. -/
def VariableInfo.readType (v : VariableInfo) : Ty :=
  if v.list then .any else v.type

section Rules

-- The table, the bindings of the program and the functions that calls may name.
variable (t : SideTable) (B : List (Nat × Nat)) (F : List Function)

/-! ## §1 Names -/

/-- An access of a name stands for a declaration, and both have the same entry in the table. -/
def Stands (Γ : Context) (node : Node) (name : String) (v : VariableInfo) : Prop :=
  ∃ d, Γ.find? name = some d ∧ (node.id, d) ∈ B ∧ t.findVariable? d = some v ∧ t.findVariable? node.id = some v

/-- A name and a number of arguments select a function: the builtin or one of the program. -/
def Callee (name : String) (arity : Nat) (f : FunctionInfo) : Prop :=
  (name = "print" ∧ arity = 1 ∧ f = Builtin.print.info) ∨
    ∃ g ∈ F, g.name = name ∧ g.arity = arity ∧ t.findFunction? g.node.id = some f

/-! ## §2 Expressions -/

mutual

/-- Typing of expressions. -/
inductive HasType (Γ : Context) : Expr → Ty → Prop where
  | literal {node value} :
      t.type? node.id = some value.type → HasType Γ (.literal node value) value.type
  | group {node inner τ} :
      HasType Γ inner τ → t.type? node.id = some τ → HasType Γ (.group node inner) τ
  | binary {node op left right a b τ} :
      HasType Γ left a → HasType Γ right b → Ty.ofBinary? op a b = some τ →
      t.type? node.id = some τ → HasType Γ (.binary node op left right) τ
  | access {node name v} :
      Stands t B Γ node name v → t.type? node.id = some v.readType → HasType Γ (.variable node name) v.readType
  /-- Only a variable that holds a list can be indexed, and only by an integer. -/
  | element {node name index v} :
      HasType Γ index .integer → Stands t B Γ node name v → v.list = true →
      t.type? node.id = some v.type → HasType Γ (.element node name index) v.type
  | call {node name arguments found f} :
      HaveTypes Γ arguments found → Callee t F name arguments.length f →
      List.Forall₂ (fun target source => Ty.accepts target source) f.parameters found →
      t.findFunction? node.id = some f → t.type? node.id = some f.returns →
      HasType Γ (.call node name arguments) f.returns
  | list {node elements found} :
      HaveTypes Γ elements found → t.type? node.id = some .any → HasType Γ (.list node elements) .any

/-- Typing of several expressions. -/
inductive HaveTypes (Γ : Context) : List Expr → List Ty → Prop where
  | nil : HaveTypes Γ [] []
  | cons {e rest τ τs} : HasType Γ e τ → HaveTypes Γ rest τs → HaveTypes Γ (e :: rest) (τ :: τs)

end

/-- What an expression yields may be held by a variable of the given type, which holds a list of elements of that
type exactly if the flag is set.  A list is only passed on by naming a variable that holds it. -/
inductive Supplies (Γ : Context) : Expr → Ty → Bool → Prop where
  | value {e τ σ} :
      HasType t B F Γ e σ → (τ = σ ∨ τ.accepts σ) → Supplies Γ e τ false
  | alias {node name v} :
      HasType t B F Γ (.variable node name) v.readType → Stands t B Γ node name v → v.list = true →
      Supplies Γ (.variable node name) v.type true

/-- The initial value of a local is absent or supplies what the local may hold. -/
inductive Initial (Γ : Context) : Option Expr → Ty → Bool → Prop where
  | absent {τ} : Initial Γ none τ false
  | present {e τ list} : Supplies t B F Γ e τ list → Initial Γ (some e) τ list

/-! ## §3 Statements -/

mutual

/-- Rules for a statement inside a function that returns `ρ`. -/
inductive Checks (ρ : Ty) : Context → Statement → Prop where
  | expression {Γ offset e τ} :
      HasType t B F Γ e τ → Checks ρ Γ (.expression offset e)
  | declaration {names outer node name type value v} :
      Initial t B F (names :: outer) value v.type v.list → names.lookup name = none →
      t.findVariable? node.id = some v → v.name = name → v.mutable = true →
      Checks ρ (names :: outer) (.declaration node name type value)
  | assignVariable {Γ offset node name value v} :
      Stands t B Γ node name v → Supplies t B F Γ value v.type v.list →
      Checks ρ Γ (.assignment offset (.variable node name) value)
  | assignElement {Γ offset node name index value v σ} :
      HasType t B F Γ index .integer → Stands t B Γ node name v → v.list = true →
      HasType t B F Γ value σ → v.type.accepts σ →
      Checks ρ Γ (.assignment offset (.element node name index) value)
  | conditional {Γ offset condition onTrue onFalse} :
      HasType t B F Γ condition .boolean → ChecksAll ρ ([] :: Γ) onTrue → ChecksAll ρ ([] :: Γ) onFalse →
      Checks ρ Γ (.conditional offset condition onTrue onFalse)
  | switch {Γ offset subject cases τ} :
      HasType t B F Γ subject τ → ChecksArms ρ Γ cases → Checks ρ Γ (.switch offset subject cases)
  | loop {Γ offset condition body} :
      HasType t B F Γ condition .boolean → ChecksAll ρ ([] :: Γ) body → Checks ρ Γ (.loop offset condition body)
  | returning {Γ offset value σ} :
      HasType t B F Γ value σ → ρ.accepts σ → Checks ρ Γ (.returning offset value)

/-- Rules for the statements of a block, each of which sees the declarations before it. -/
inductive ChecksAll (ρ : Ty) : Context → List Statement → Prop where
  | nil {Γ} : ChecksAll ρ Γ []
  | cons {Γ first rest} : Checks ρ Γ first → ChecksAll ρ (first.after Γ) rest → ChecksAll ρ Γ (first :: rest)

/-- Rules for the arms of a switch. -/
inductive ChecksArms (ρ : Ty) : Context → List Case → Prop where
  | nil {Γ} : ChecksArms ρ Γ []
  | valued {Γ offset value body rest τ} :
      HasType t B F Γ value τ → ChecksAll ρ ([] :: Γ) body → ChecksArms ρ Γ rest →
      ChecksArms ρ Γ (.mk offset (some value) body :: rest)
  | default {Γ offset body rest} :
      ChecksAll ρ ([] :: Γ) body → ChecksArms ρ Γ rest → ChecksArms ρ Γ (.mk offset none body :: rest)

end

/-! ## §4 Declarations and programs -/

/-- The entry of a parameter of type `τ`. -/
def ParameterTyped (p : Parameter) (τ : Ty) : Prop :=
  ∃ v, t.findVariable? p.node.id = some v ∧ v.name = p.name ∧ v.type = τ ∧ v.mutable = true ∧ v.list = false

/-- Rules for a function below the given globals. -/
structure FunctionTyped (globals : Names) (f : Function) (info : FunctionInfo) : Prop where
  recorded : t.findFunction? f.node.id = some info
  parameters : List.Forall₂ (ParameterTyped t) f.parameters info.parameters
  distinct : (f.parameters.map Parameter.name).Nodup
  body : ChecksAll t B F info.returns [parameterNames f.parameters, globals] f.body

/-- The initial value of a global of type `τ`; for a list the type is that of its elements. -/
inductive GlobalValue (Γ : Context) : Option Expr → Ty → Prop where
  | absent {τ} : GlobalValue Γ none τ
  | value {e τ σ} :
      e.isList = false → HasType t B F Γ e σ → (τ = σ ∨ τ.accepts σ) → GlobalValue Γ (some e) τ
  | list {node items found τ} :
      HaveTypes t B F Γ items found → (∀ σ ∈ found, Ty.accepts τ σ) → t.type? node.id = some τ →
      GlobalValue Γ (some (.list node items)) τ

/-- Rules for globals in order, behind the given ones. -/
inductive GlobalsTyped : Names → List Global → Prop where
  | nil {names} : GlobalsTyped names []
  | cons {names g rest v} :
      GlobalValue t B F [names] g.value v.type → names.lookup g.name = none →
      t.findVariable? g.node.id = some v → v.name = g.name → v.mutable = g.mutable → v.list = g.isList →
      GlobalsTyped ((g.name, g.node.id) :: names) rest → GlobalsTyped names (g :: rest)

end Rules

/-- Rules for a whole program.  Initial values of globals may call builtins alone. -/
structure ProgramTyped (t : SideTable) (p : Program) : Prop where
  globals : GlobalsTyped t p.bindings [] [] p.globals
  functions : ∀ f ∈ p.functions, ∃ info, FunctionTyped t p.bindings p.functions (globalNames p.globals) f info
  distinct : (("print", 1) :: p.functions.map fun f => (f.name, f.arity)).Nodup
  entry : ∃ f ∈ p.functions, f.isEntry = true ∧ ∃ info, t.findFunction? f.node.id = some info ∧ info.returns = .integer

namespace HasType

variable {t : SideTable} {B : List (Nat × Nat)} {F : List Function} {Γ : Context} {e : Expr} {τ : Ty}

/-- The table has the type of every typed expression. -/
theorem recorded (h : HasType t B F Γ e τ) : t.type? e.id = some τ := by
  cases h <;> assumption

end HasType

end BlockLang
