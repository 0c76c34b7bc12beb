import BlockLang.Proofs.Run.Record
import BlockLang.Proofs.Typing.Judgment

/-!
# Conformance

What a run of a checked program keeps to.  A value conforms to a static type if it is `Nil` or a value that the type
stands for; a variable conforms to its entry in the side table; a moment of a recorded run conforms if all variables
do and if what happens at it agrees with the table.

## Main definitions

- `Value.Conforms`, `Heap.Holds`: values and types.
- `CellsConform`, `Moment.Typed`: at every moment, variables and values have their static types.
- `FindsVariable`, `FindsFunction`, `Moment.Resolved`: names stand for what the table says they stand for.
- `TypeFault.ReportsNil`, `Permitted`: the errors with which a checked program may end.
-/

namespace BlockLang

/-! ## §1 Values and types -/

/-- The runtime types of values that have an order. -/
def ValueKind.isOrdered : ValueKind → Bool
  | integer | decimal | character | string => true
  | _ => false

theorem ValueKind.name_injective : Function.Injective ValueKind.name := by
  intro a b h
  cases a <;> cases b <;> first | rfl | exact absurd h (by decide)

/-- A value is of a static type, up to `Nil`. -/
def Value.Conforms (v : Value) (τ : Ty) : Prop :=
  v = .nil ∨ τ = .any ∨ (τ = .comparable ∧ v.kind.isOrdered = true) ∨ τ.name = v.kind.name

instance (v : Value) (τ : Ty) : Decidable (v.Conforms τ) := by
  unfold Value.Conforms
  infer_instance

/-- A value is what a variable of a static type holds, which is a list of elements of that type if the flag is set. -/
def Heap.Holds (h : Heap) (v : Value) (τ : Ty) (list : Bool) : Prop :=
  if list then ∃ ref, v = .list ref ∧ ∀ w ∈ h.elements ref, w.Conforms τ else v.Conforms τ

namespace Value.Conforms

variable {v : Value} {σ τ : Ty}

theorem nil (τ : Ty) : Value.nil.Conforms τ := Or.inl rfl

theorem any (v : Value) : v.Conforms .any := Or.inr (Or.inl rfl)

theorem of_name (h : τ.name = v.kind.name) : v.Conforms τ := Or.inr (Or.inr (Or.inr h))

/-- A value that conforms to a type named like a runtime type has that runtime type, or is `Nil`. -/
theorem kind_of_name {k : ValueKind} (h : v.Conforms σ) (hk : σ.name = k.name) : v = .nil ∨ v.kind = k := by
  obtain rfl | rfl | ⟨rfl, -⟩ | hname := h
  · exact Or.inl rfl
  · cases k <;> exact absurd hk (by decide)
  · cases k <;> exact absurd hk (by decide)
  · exact Or.inr (ValueKind.name_injective (hname.symm.trans hk))

/-- Where a value of one type may be stored, values that conform to the one type conform to the other. -/
theorem of_accepts (h : v.Conforms σ) (haccepts : τ.accepts σ) : v.Conforms τ := by
  cases τ with
  | any => exact any v
  | comparable =>
    obtain rfl | hordered : v = .nil ∨ v.kind.isOrdered = true := by
      cases σ with
      | integer => exact (h.kind_of_name (k := .integer) rfl).imp_right fun hk => by rw [hk]; rfl
      | decimal => exact (h.kind_of_name (k := .decimal) rfl).imp_right fun hk => by rw [hk]; rfl
      | character => exact (h.kind_of_name (k := .character) rfl).imp_right fun hk => by rw [hk]; rfl
      | string => exact (h.kind_of_name (k := .string) rfl).imp_right fun hk => by rw [hk]; rfl
      | any | nil | boolean | comparable => cases haccepts
    · exact nil _
    · exact Or.inr (Or.inr (Or.inl ⟨rfl, hordered⟩))
  | nil | boolean | integer | decimal | character | string =>
    obtain rfl := of_decide_eq_true haccepts
    exact h

theorem of_fits (h : v.Conforms σ) (hfits : τ = σ ∨ τ.accepts σ) : v.Conforms τ := by
  obtain rfl | haccepts := hfits
  · exact h
  · exact h.of_accepts haccepts

theorem ofLiteral (value : Literal) : (Value.ofLiteral value).Conforms value.type := by
  cases value <;> exact of_name rfl

theorem boolean (h : v.Conforms .boolean) : v = .nil ∨ ∃ b, v = .boolean b := by
  apply (h.kind_of_name (k := .boolean) rfl).imp_right
  intro hk
  cases v <;> cases hk
  exact ⟨_, rfl⟩

theorem integer (h : v.Conforms .integer) : v = .nil ∨ ∃ n, v = .integer n := by
  apply (h.kind_of_name (k := .integer) rfl).imp_right
  intro hk
  cases v <;> cases hk
  exact ⟨_, rfl⟩

theorem decimal (h : v.Conforms .decimal) : v = .nil ∨ ∃ d, v = .decimal d := by
  apply (h.kind_of_name (k := .decimal) rfl).imp_right
  intro hk
  cases v <;> cases hk
  exact ⟨_, rfl⟩

end Value.Conforms

/-! ## §2 Moments -/

/-- Every variable conforms to the entry that the declaration which created it has in the table. -/
def CellsConform (t : SideTable) (store : Store) (origins : Origins) : Prop :=
  ∀ ref cell, store.cell? ref = some cell → ∃ d v, origins.origin? ref = some d ∧ t.findVariable? d = some v ∧
    store.heap.Holds cell.value v.type v.list

/-- An expression is the initial value of a list. -/
def Program.IsListInitializer (p : Program) (e : Expr) : Prop :=
  e.isList = true ∧ ∃ g ∈ p.globals, g.value = some e

/-- At a moment, all variables conform, and an expression that has just been evaluated has a value of its type.  The
initial value of a list has the type of its elements. -/
structure Moment.Typed (t : SideTable) (p : Program) (m : Moment) : Prop where
  cells : CellsConform t m.store m.origins
  value {e : Expr} {v : Value} : m.event = .yields e v → ∃ τ, t.type? e.id = some τ ∧
    (¬ p.IsListInitializer e → v.Conforms τ) ∧ (p.IsListInitializer e → m.store.heap.Holds v τ true)

/-- The access whose variable an expression is about. -/
def Expr.access? : Expr → Option (Node × String)
  | .variable node name | .element node name _ => some (node, name)
  | _ => none

/-- The access whose variable is about to be looked up: that of an expression, or that which an assignment changes. -/
def Event.access? : Event → Option (Node × String)
  | .enters e => e.access?
  | .begins (.assignment _ receiver _) => receiver.access?
  | _ => none

/-- Looking an access up through the environment finds a variable that was created by the declaration which the access
stands for; the table has the same entry for both, and its mutability is that of the variable. -/
def FindsVariable (t : SideTable) (p : Program) (m : Moment) (node : Node) (name : String) : Prop :=
  ∃ ref cell d v, m.store.findVariable? m.env name = some (ref, cell) ∧ m.origins.origin? ref = some d ∧
    (node.id, d) ∈ p.bindings ∧ t.findVariable? d = some v ∧ t.findVariable? node.id = some v ∧
    cell.mutable = v.mutable

/-- What a name and a number of arguments select at runtime is what the table has for it: the builtin, or the one
function of the program with that name and number of parameters. -/
def Callable.Is (t : SideTable) (p : Program) (c : Callable) (name : String) (arity : Nat) (f : FunctionInfo) : Prop :=
  (c = .builtin .print ∧ name = "print" ∧ arity = 1 ∧ f = Builtin.print.info) ∨
    ∃ g ∈ p.functions, c = .defined g (some .globals) ∧ g.name = name ∧ g.arity = arity ∧
      t.findFunction? g.node.id = some f

/-- Looking a call up through the environment finds the function that the table has for the call. -/
def FindsFunction (t : SideTable) (p : Program) (m : Moment) (node : Node) (name : String) (arity : Nat) : Prop :=
  ∃ c f, m.store.findFunction? m.env name arity = some c ∧ t.findFunction? node.id = some f ∧ c.Is t p name arity f

/-- At a moment, the variable or the function that is about to be looked up is the one that the table has. -/
structure Moment.Resolved (t : SideTable) (p : Program) (m : Moment) : Prop where
  access {node : Node} {name : String} : m.event.access? = some (node, name) → FindsVariable t p m node name
  call {node : Node} {name : String} {arity : Nat} : m.event = .calls node name arity →
    FindsFunction t p m node name arity

/-! ## §3 Errors -/

/-- Some operand that the fault reports is `Nil`. -/
def TypeFault.ReportsNil : TypeFault → Prop
  | expected wanted found => wanted ≠ .list ∧ found = .nil
  | operands _ left right | unordered left right => left = .nil ∨ right = .nil
  | base found => found = .nil
  | notArithmetic _ | notComparison _ | notLogical _ | receiver => False

/-- An error that says nothing of names; a fault of types is due to a `Nil`. -/
def RunError.Harmless : RunError → Prop
  | unknownVariable _ _ | unknownFunction _ _ _ | alreadyDefined _ _ | immutableAssignment _ _ => False
  | typeFault fault _ => fault.ReportsNil
  | divisionByZero _ | indexOutOfBounds _ _ _ | cyclicList _ _ | invalidExponent _ | outputFailed _ => True

/-- The last of the given moments begins an assignment to a global that the table has as immutable. -/
def AssignsConstant (t : SideTable) (p : Program) (moments : List Moment) (name : String) (offset : Nat) : Prop :=
  ∃ m receiver value node v, moments.head? = some m ∧ m.event = .begins (.assignment offset receiver value) ∧
    receiver.access? = some (node, name) ∧ t.findVariable? node.id = some v ∧ v.mutable = false ∧
    ∃ g ∈ p.globals, (node.id, g.node.id) ∈ p.bindings ∧ g.mutable = false ∧ t.findVariable? g.node.id = some v

/-- How an evaluation may stop, after the given moments. -/
def Permitted (t : SideTable) (p : Program) (moments : List Moment) : Stop → Prop
  | .outOfFuel => True
  | .error (.immutableAssignment name offset) => AssignsConstant t p moments name offset
  | .error e => e.Harmless

theorem permitted_of_harmless {t : SideTable} {p : Program} {moments : List Moment} {e : RunError} (h : e.Harmless) :
    Permitted t p moments (.error e) := by
  cases e <;> first | exact h | cases h

end BlockLang
