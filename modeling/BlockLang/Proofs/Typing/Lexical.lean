import BlockLang.Proofs.Aligned
import BlockLang.Proofs.Grammar.Written

/-!
# Lexical scoping

Which declaration a name stands for is a matter of the text alone: the latest declaration of the innermost block
around it that declares the name.  A context holds the declarations that can be seen from a place; walking over a
program with contexts yields its bindings, the pairs of an access and the declaration it stands for.

Neither the checker nor an evaluation is mentioned here; both are compared with these bindings later on.
-/

namespace BlockLang

/-! ## §1 Contexts -/

/-- The names declared in one block with the ids of the declaring nodes, the latest first. -/
abbrev Names := List (String × Nat)

/-- The names of the blocks around a place, the innermost first; the last one holds the globals. -/
abbrev Context := List Names

namespace Context

/-- The id of the declaration that a name stands for. -/
def find? (Γ : Context) (name : String) : Option Nat :=
  Γ.findSome? fun names => names.lookup name

/-- Declares a name in the innermost block. -/
def declare (name : String) (id : Nat) : Context → Context
  | [] => []
  | names :: outer => ((name, id) :: names) :: outer

/-- The binding of one access. -/
def access (Γ : Context) (node : Node) (name : String) : List (Nat × Nat) :=
  ((Γ.find? name).map fun id => (node.id, id)).toList

end Context

/-! ## §2 Bindings -/

namespace Expr

mutual

/-- The bindings of an expression. -/
def bindings (Γ : Context) : Expr → List (Nat × Nat)
  | .literal _ _ => []
  | .group _ inner => inner.bindings Γ
  | .binary _ _ left right => left.bindings Γ ++ right.bindings Γ
  | .variable node name => Γ.access node name
  | .element node name index => index.bindings Γ ++ Γ.access node name
  | .call _ _ arguments => allBindings Γ arguments
  | .list _ elements => allBindings Γ elements

/-- The bindings of several expressions. -/
def allBindings (Γ : Context) : List Expr → List (Nat × Nat)
  | [] => []
  | e :: rest => e.bindings Γ ++ allBindings Γ rest

end

/-- The bindings of an optional expression. -/
def optionBindings (Γ : Context) : Option Expr → List (Nat × Nat)
  | none => []
  | some e => e.bindings Γ

end Expr

/-- The context behind a statement: a declaration can be seen from the next statement on. -/
def Statement.after (Γ : Context) : Statement → Context
  | .declaration node name _ _ => Γ.declare name node.id
  | _ => Γ

mutual

/-- The bindings of a statement. -/
def Statement.bindings (Γ : Context) : Statement → List (Nat × Nat)
  | .expression _ value | .returning _ value => value.bindings Γ
  | .declaration _ _ _ value => Expr.optionBindings Γ value
  | .assignment _ receiver value => receiver.bindings Γ ++ value.bindings Γ
  | .conditional _ condition onTrue onFalse =>
    condition.bindings Γ ++ blockBindings ([] :: Γ) onTrue ++ blockBindings ([] :: Γ) onFalse
  | .switch _ condition cases => condition.bindings Γ ++ armBindings Γ cases
  | .loop _ condition body => condition.bindings Γ ++ blockBindings ([] :: Γ) body

/-- The bindings of the statements of a block. -/
def blockBindings (Γ : Context) : List Statement → List (Nat × Nat)
  | [] => []
  | first :: rest => first.bindings Γ ++ blockBindings (first.after Γ) rest

/-- The bindings of an arm of a switch. -/
def Case.bindings (Γ : Context) : Case → List (Nat × Nat)
  | .mk _ value body => Expr.optionBindings Γ value ++ blockBindings ([] :: Γ) body

/-- The bindings of the arms of a switch. -/
def armBindings (Γ : Context) : List Case → List (Nat × Nat)
  | [] => []
  | arm :: rest => arm.bindings Γ ++ armBindings Γ rest

end

/-- The names that parameters declare. -/
def parameterNames (parameters : List Parameter) : Names :=
  (parameters.map fun p => (p.name, p.node.id)).reverse

/-- The names that globals declare. -/
def globalNames (globals : List Global) : Names :=
  (globals.map fun g => (g.name, g.node.id)).reverse

/-- The bindings of a function below the given globals. -/
def Function.bindings (names : Names) (f : Function) : List (Nat × Nat) :=
  blockBindings [parameterNames f.parameters, names] f.body

/-- The bindings of the initial values of globals, each of which sees the globals before it. -/
def globalBindings (names : Names) : List Global → List (Nat × Nat)
  | [] => []
  | g :: rest => Expr.optionBindings [names] g.value ++ globalBindings ((g.name, g.node.id) :: names) rest

/-- The bindings of a program: each access with the declaration it stands for. -/
def Program.bindings (p : Program) : List (Nat × Nat) :=
  globalBindings [] p.globals ++ p.functions.flatMap (Function.bindings (globalNames p.globals))

/-! ## §3 Looking up -/

namespace Context

variable {Γ : Context} {name : String} {id d : Nat}

/-- The name that has just been declared stands for its declaration; other names keep theirs. -/
theorem find?_declare (names : Names) (outer : Context) (m : String) :
    find? (declare name id (names :: outer)) m = if m = name then some id else find? (names :: outer) m := by
  unfold find? declare
  rw [List.findSome?_cons, List.findSome?_cons, List.lookup_cons]
  by_cases h : m = name
  · simp [h]
  · have hb : (m == name) = false := by simpa using h
    simp [hb, h]

theorem access_of_find? {node : Node} (h : Γ.find? name = some d) : Γ.access node name = [(node.id, d)] := by
  rw [access, h]
  rfl

end Context

/-! ## §4 Each access has one binding -/

/-- An access binds its own id, if it binds any. -/
theorem Context.access_sublist (Γ : Context) (node : Node) (name : String) :
    ((Γ.access node name).map Prod.fst).Sublist [node.id] := by
  unfold access
  cases Γ.find? name with
  | none => exact List.nil_sublist _
  | some d => exact List.Sublist.refl _

namespace Expr

mutual

/-- The ids that are bound in an expression are ids of the expression, in order. -/
theorem bindings_sublist (Γ : Context) : ∀ e : Expr, ((e.bindings Γ).map Prod.fst).Sublist e.ids
  | .literal _ _ => List.nil_sublist _
  | .group _ inner => (bindings_sublist Γ inner).trans (List.sublist_append_left _ _)
  | .binary _ _ left right => by
    rw [bindings, ids, List.map_append, List.append_assoc]
    apply (bindings_sublist Γ left).append
    exact (bindings_sublist Γ right).trans (List.sublist_append_left _ _)
  | .variable node name => Γ.access_sublist node name
  | .element node name index => by
    rw [bindings, ids, List.map_append]
    exact (bindings_sublist Γ index).append (Γ.access_sublist node name)
  | .call _ _ arguments => (allBindings_sublist Γ arguments).trans (List.sublist_append_left _ _)
  | .list _ elements => (allBindings_sublist Γ elements).trans (List.sublist_cons_self _ _)

theorem allBindings_sublist (Γ : Context) : ∀ es : List Expr, ((allBindings Γ es).map Prod.fst).Sublist (allIds es)
  | [] => List.nil_sublist _
  | e :: rest => by
    rw [allBindings, allIds, List.map_append]
    exact (bindings_sublist Γ e).append (allBindings_sublist Γ rest)

end

theorem optionBindings_sublist (Γ : Context) (e : Option Expr) :
    ((optionBindings Γ e).map Prod.fst).Sublist (optionIds e) := by
  cases e with
  | none => exact List.nil_sublist _
  | some e => exact bindings_sublist Γ e

end Expr

mutual

theorem Statement.bindings_sublist (Γ : Context) : ∀ s : Statement, ((s.bindings Γ).map Prod.fst).Sublist s.ids
  | .expression _ value | .returning _ value => value.bindings_sublist Γ
  | .declaration _ _ _ value => (Expr.optionBindings_sublist Γ value).trans (List.sublist_cons_self _ _)
  | .assignment _ receiver value => by
    rw [Statement.bindings, Statement.ids, List.map_append]
    exact (receiver.bindings_sublist Γ).append (value.bindings_sublist Γ)
  | .conditional _ condition onTrue onFalse => by
    rw [Statement.bindings, Statement.ids, List.map_append, List.map_append]
    refine ((condition.bindings_sublist Γ).append ?_).append ?_
    · exact blockBindings_sublist _ onTrue
    · exact blockBindings_sublist _ onFalse
  | .switch _ condition cases => by
    rw [Statement.bindings, Statement.ids, List.map_append]
    exact (condition.bindings_sublist Γ).append (armBindings_sublist Γ cases)
  | .loop _ condition body => by
    rw [Statement.bindings, Statement.ids, List.map_append]
    exact (condition.bindings_sublist Γ).append (blockBindings_sublist _ body)

theorem blockBindings_sublist (Γ : Context) :
    ∀ body : List Statement, ((blockBindings Γ body).map Prod.fst).Sublist (blockIds body)
  | [] => List.nil_sublist _
  | first :: rest => by
    rw [blockBindings, blockIds, List.map_append]
    exact (first.bindings_sublist Γ).append (blockBindings_sublist _ rest)

theorem Case.bindings_sublist (Γ : Context) : ∀ arm : Case, ((arm.bindings Γ).map Prod.fst).Sublist arm.ids
  | .mk _ value body => by
    rw [Case.bindings, Case.ids, List.map_append]
    exact (Expr.optionBindings_sublist Γ value).append (blockBindings_sublist _ body)

theorem armBindings_sublist (Γ : Context) :
    ∀ cases : List Case, ((armBindings Γ cases).map Prod.fst).Sublist (armIds cases)
  | [] => List.nil_sublist _
  | arm :: rest => by
    rw [armBindings, armIds, List.map_append]
    exact (arm.bindings_sublist Γ).append (armBindings_sublist Γ rest)

end

theorem globalBindings_sublist (names : Names) (gs : List Global) :
    ((globalBindings names gs).map Prod.fst).Sublist (gs.flatMap Global.ids) := by
  induction gs generalizing names with
  | nil => exact List.nil_sublist _
  | cons g rest ih =>
    rw [globalBindings, List.map_append, List.flatMap_cons]
    refine List.Sublist.append ?_ (ih _)
    exact (Expr.optionBindings_sublist _ g.value).trans (List.sublist_cons_self _ _)

theorem functionBindings_sublist (names : Names) (gs : List Function) :
    ((gs.flatMap (Function.bindings names)).map Prod.fst).Sublist (gs.flatMap Function.ids) := by
  induction gs with
  | nil => exact List.nil_sublist _
  | cons g rest ih =>
    rw [List.flatMap_cons, List.flatMap_cons, List.map_append]
    refine List.Sublist.append ?_ ih
    exact (blockBindings_sublist _ g.body).trans (List.sublist_append_right _ _)

/-- In a program whose nodes have different ids, an access stands for one declaration alone. -/
theorem Program.bindings_unique {p : Program} (hids : p.ids.Nodup) {a d d' : Nat} (hd : (a, d) ∈ p.bindings)
    (hd' : (a, d') ∈ p.bindings) : d = d' := by
  have hsublist : (p.bindings.map Prod.fst).Sublist p.ids := by
    rw [bindings, ids, List.map_append]
    exact (globalBindings_sublist [] p.globals).append (functionBindings_sublist _ p.functions)
  -- Bindings come in the order of the ids, so distinct ids make distinct keys.
  have hkeys := hids.sublist hsublist
  exact Option.some.inj ((lookup_of_mem hkeys hd).symm.trans (lookup_of_mem hkeys hd'))

end BlockLang
