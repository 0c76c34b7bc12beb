import BlockLang.Proofs.Java.Grouping

/-!
# What checking records

A program that is accepted has an entry for every node that can have one, and no other entries: a type for each
expression, a variable for each global, parameter, local declaration and access, and a function for each function and
call. Nodes are followed as a list of expressions with the ids of the declarations between them; the walk of the
checker visits each of them once.

## Main definitions

- `SideTable.Adds`: which entries a table has got.
- `Program.variableIds`, `Program.functionIds`: the nodes that stand for a variable or a function.

## Main statement

- `adds_of_check`: the entries of the side table of a program, whatever the builtins are.
-/

namespace BlockLang

open Stateful

/-! ## §1 Nodes -/

/-- Whether an expression names a variable. -/
def Expr.isAccess : Expr → Bool
  | «variable» .. | element .. => true
  | _ => false

/-- Whether an expression names a function. -/
def Expr.isCall : Expr → Bool
  | call .. => true
  | _ => false

/-- The ids of the parameters and local declarations of functions. -/
def localIds (fs : List Function) : List Nat :=
  fs.flatMap fun f => f.locals.map Prod.snd

/-- The ids of the nodes that stand for a variable: globals, parameters, local declarations and accesses. -/
def Program.variableIds (p : Program) : List Nat :=
  (p.globals.map fun g => g.node.id) ++ localIds p.functions ++ (p.expressions.filter Expr.isAccess).map Expr.id

/-- The ids of the nodes that stand for a function: functions and calls. -/
def Program.functionIds (p : Program) : List Nat :=
  (p.functions.map fun f => f.node.id) ++ (p.expressions.filter Expr.isCall).map Expr.id

/-! ## §2 Entries -/

/-- `l'` has the entries of `l`, and in front of them one entry for each of the keys. -/
def Prepends {α : Type} (keys : List Nat) (l l' : List (Nat × α)) : Prop :=
  ∃ added, l' = added ++ l ∧ (added.map Prod.fst).Perm keys

namespace Prepends

variable {α : Type} {keys more : List Nat} {l m n : List (Nat × α)}

theorem refl (l : List (Nat × α)) : Prepends [] l l :=
  ⟨[], rfl, .nil⟩

theorem cons (k : Nat) (a : α) (l : List (Nat × α)) : Prepends [k] l ((k, a) :: l) :=
  ⟨[(k, a)], rfl, .refl _⟩

theorem trans (h : Prepends keys l m) (h' : Prepends more m n) : Prepends (keys ++ more) l n := by
  obtain ⟨added, rfl, hadded⟩ := h
  obtain ⟨others, rfl, hothers⟩ := h'
  refine ⟨others ++ added, (List.append_assoc ..).symm, ?_⟩
  rw [List.map_append]
  exact (hothers.append hadded).trans List.perm_append_comm

theorem perm (h : Prepends keys l m) (hp : keys.Perm more) : Prepends more l m := by
  obtain ⟨added, rfl, hadded⟩ := h
  exact ⟨added, rfl, hadded.trans hp⟩

theorem subset (h : Prepends keys l m) : l ⊆ m := by
  obtain ⟨added, rfl, -⟩ := h
  exact List.subset_append_right _ _

/-- From nothing on, the keys are what can be looked up. -/
theorem isSome_lookup_iff (h : Prepends keys [] l) (k : Nat) : (l.lookup k).isSome ↔ k ∈ keys := by
  obtain ⟨added, rfl, hadded⟩ := h
  rw [List.append_nil, ← hadded.mem_iff, Option.isSome_iff_ne_none, ne_eq, lookup_eq_none_iff_notMem, not_not]

end Prepends

namespace SideTable

/-- A table has got a type for each of the expressions, a variable for each of the given ids and each access, and a
function for each of the given ids and each call. -/
structure Adds (xs : List Expr) (declared defined : List Nat) (u u' : SideTable) : Prop where
  types : Prepends (xs.map Expr.id) u.types u'.types
  vars : Prepends (declared ++ (xs.filter Expr.isAccess).map Expr.id) u.vars u'.vars
  funs : Prepends (defined ++ (xs.filter Expr.isCall).map Expr.id) u.funs u'.funs

namespace Adds

variable {xs ys : List Expr} {declared others defined further : List Nat} {u v w : SideTable}

theorem refl (u : SideTable) : Adds [] [] [] u u :=
  ⟨.refl _, .refl _, .refl _⟩

theorem trans (h : Adds xs declared defined u v) (h' : Adds ys others further v w) :
    Adds (xs ++ ys) (declared ++ others) (defined ++ further) u w := by
  -- Declarations come before accesses, and functions before calls, in whatever order they were recorded.
  have hperm : ∀ a b c d : List Nat, (a ++ b ++ (c ++ d)).Perm (a ++ c ++ (b ++ d)) := by
    intro a b c d
    rw [List.perm_iff_count]
    intro k
    simp only [List.count_append]
    omega
  refine ⟨?_, ?_, ?_⟩
  · rw [List.map_append]
    exact h.types.trans h'.types
  · rw [List.filter_append, List.map_append]
    exact (h.vars.trans h'.vars).perm (hperm ..)
  · rw [List.filter_append, List.map_append]
    exact (h.funs.trans h'.funs).perm (hperm ..)

/-- The order of the expressions does not matter. -/
theorem perm (h : Adds xs declared defined u v) (hp : xs.Perm ys) : Adds ys declared defined u v :=
  ⟨h.types.perm (hp.map _), h.vars.perm (((hp.filter _).map _).append_left _),
    h.funs.perm (((hp.filter _).map _).append_left _)⟩

/-- An expression that names nothing gets a type. -/
theorem setType (u : SideTable) {e : Expr} (τ : Ty) (haccess : e.isAccess = false) (hcall : e.isCall = false) :
    Adds [e] [] [] u (u.setType e.id τ) := by
  refine ⟨.cons _ _ _, ?_, ?_⟩
  · rw [List.filter_cons_of_neg (Bool.not_eq_true _ ▸ haccess)]
    exact .refl _
  · rw [List.filter_cons_of_neg (Bool.not_eq_true _ ▸ hcall)]
    exact .refl _

/-- An access gets a variable and a type. -/
theorem setAccess (u : SideTable) {e : Expr} (v : VariableInfo) (τ : Ty) (haccess : e.isAccess = true)
    (hcall : e.isCall = false) : Adds [e] [] [] u ((u.setVariable e.id v).setType e.id τ) := by
  refine ⟨.cons _ _ _, ?_, ?_⟩
  · rw [List.filter_cons_of_pos haccess]
    exact .cons _ _ _
  · rw [List.filter_cons_of_neg (Bool.not_eq_true _ ▸ hcall)]
    exact .refl _

/-- A call gets a function and a type. -/
theorem setCall (u : SideTable) {e : Expr} (f : FunctionInfo) (τ : Ty) (haccess : e.isAccess = false)
    (hcall : e.isCall = true) : Adds [e] [] [] u ((u.setFunction e.id f).setType e.id τ) := by
  refine ⟨.cons _ _ _, ?_, ?_⟩
  · rw [List.filter_cons_of_neg (Bool.not_eq_true _ ▸ haccess)]
    exact .refl _
  · rw [List.filter_cons_of_pos hcall]
    exact .cons _ _ _

/-- A declaration gets a variable. -/
theorem setVariable (u : SideTable) (id : Nat) (v : VariableInfo) : Adds [] [id] [] u (u.setVariable id v) :=
  ⟨.refl _, .cons _ _ _, .refl _⟩

/-- A function gets a function. -/
theorem setFunction (u : SideTable) (id : Nat) (f : FunctionInfo) : Adds [] [] [id] u (u.setFunction id f) :=
  ⟨.refl _, .refl _, .cons _ _ _⟩

/-- A node is recorded after its children. -/
theorem node {e : Expr} (h : Adds (e.children.flatMap Expr.parts) [] [] u v) (h' : Adds [e] [] [] v w) :
    Adds e.parts [] [] u w := by
  rw [Expr.parts_eq]
  exact (h.trans h').perm (List.perm_append_singleton _ _)

end Adds

end SideTable

open SideTable

/-! ## §3 Expressions -/

namespace Checker

variable {s s' : CheckerState}

mutual

/-- Checking an expression records all expressions in it. -/
theorem adds_of_expression : ∀ (e : Expr) {s s' : CheckerState} {τ : Ty}, expression e s = .ok τ s' →
    Adds e.parts [] [] s.table s'.table
  | .literal node value, s, s', τ, h => by
    obtain ⟨-, rfl⟩ := expression_literal_eq_ok h
    exact Adds.setType _ (e := .literal node value) _ rfl rfl
  | .group node inner, s, s', τ, h => by
    obtain ⟨-, s₁, hinner, rfl⟩ := expression_group_eq_ok h
    exact .node (by simpa [Expr.children] using adds_of_expression inner hinner) (.setType _ _ rfl rfl)
  | .binary node op left right, s, s', τ, h => by
    obtain ⟨a, b, s₁, s₂, hleft, hright, -, rfl⟩ := expression_binary_eq_ok h
    have hoperands := (adds_of_expression left hleft).trans (adds_of_expression right hright)
    exact .node (by simpa [Expr.children] using hoperands) (.setType _ _ rfl rfl)
  | .variable node name, s, s', τ, h => by
    obtain ⟨v, -, -, rfl⟩ := expression_variable_eq_ok h
    exact Adds.setAccess _ (e := .variable node name) _ _ rfl rfl
  | .element node name index, s, s', τ, h => by
    obtain ⟨v, s₁, hindex, -, -, -, rfl⟩ := expression_element_eq_ok h
    exact .node (by simpa [Expr.children] using adds_of_expression index hindex) (.setAccess _ _ _ rfl rfl)
  | .call node name arguments, s, s', τ, h => by
    obtain ⟨found, f, s₁, harguments, -, -, -, rfl⟩ := expression_call_eq_ok h
    exact .node (adds_of_expressions arguments harguments) (.setCall _ _ _ rfl rfl)
  | .list node elements, s, s', τ, h => by
    obtain ⟨found, s₁, helements, -, rfl⟩ := expression_list_eq_ok h
    exact .node (adds_of_expressions elements helements) (.setType _ _ rfl rfl)

theorem adds_of_expressions : ∀ (es : List Expr) {s s' : CheckerState} {found : List Ty},
    expressions es s = .ok found s' → Adds (es.flatMap Expr.parts) [] [] s.table s'.table
  | [], s, s', found, h => by
    cases h
    exact .refl _
  | e :: rest, s, s', found, h => by
    obtain ⟨τ, τs, s₁, hhead, htail, -⟩ := expressions_cons_eq_ok h
    rw [List.flatMap_cons]
    exact (adds_of_expression e hhead).trans (adds_of_expressions rest htail)

end

/-! ## §4 Walks, globals and functions -/

theorem adds_of_walk {locals : Names} {es : List Expr} (h : Walk locals es s s') :
    Adds (es.flatMap Expr.parts) (locals.map Prod.snd) [] s.table s'.table := by
  induction h with
  | stay s => exact .refl _
  | @check e τ s s' hcheck => simpa using adds_of_expression e hcheck
  | declare node name τ list _ => exact .setVariable _ _ _
  | block _ ih => exact ih
  | append _ _ ih ih' =>
    rw [List.flatMap_append, List.map_append]
    exact ih.trans ih'

theorem adds_of_globalType {g : Global} {declared : Option Ty} {τ : Ty} (h : globalType g declared s = .ok τ s') :
    Adds (g.value.toList.flatMap Expr.parts) [] [] s.table s'.table := by
  obtain ⟨hvalue, -, rfl⟩ | ⟨node, items, s₁, hvalue, -, helements, rfl⟩ | ⟨e, σ, hvalue, -, -, -, hexpression⟩ :=
    globalType_cases h
  · rw [hvalue]
    exact .refl _
  · obtain ⟨found, hfound, -⟩ := expressions_of_elements helements
    have hlist : Adds (Expr.list node items).parts [] [] s.table (s₁.table.setType node.id τ) :=
      .node (adds_of_expressions items hfound) (.setType _ _ rfl rfl)
    simpa [hvalue] using hlist
  · simpa [hvalue] using adds_of_expression e hexpression

theorem adds_of_globals {gs : List Global} {u : Unit} (h : globals gs s = .ok u s') :
    Adds ((gs.flatMap fun g => g.value.toList).flatMap Expr.parts) (gs.map fun g => g.node.id) [] s.table s'.table := by
  induction gs generalizing s with
  | nil =>
    cases h
    exact .refl _
  | cons g rest ih =>
    rw [globals] at h
    obtain ⟨_, s₁, hfirst, hrest⟩ := bind_eq_ok.mp h
    obtain ⟨declared, τ, s₂, scope, -, htype, -, rfl⟩ := global_eq_ok hfirst
    have hglobal := (adds_of_globalType htype).trans
      (.setVariable s₂.table g.node.id ⟨g.name, mangle g.name, τ, g.mutable, g.isList⟩)
    rw [List.append_nil] at hglobal
    rw [List.flatMap_cons, List.flatMap_append, List.map_cons]
    exact hglobal.trans (ih hrest)

theorem adds_of_functions {fs : List Function} {u : Unit} (h : functions fs s = .ok u s') :
    Adds ((fs.flatMap fun f => blockExpressions f.body).flatMap Expr.parts) (localIds fs) (fs.map fun f => f.node.id)
      s.table s'.table := by
  induction fs generalizing s with
  | nil =>
    cases h
    exact .refl _
  | cons f rest ih =>
    rw [functions] at h
    obtain ⟨_, s₁, hfirst, hrest⟩ := bind_eq_ok.mp h
    obtain ⟨info, scope, -, -, hwalk⟩ := walk_of_function hfirst
    have hfunction := (Adds.setFunction s.table f.node.id info).trans (adds_of_walk hwalk)
    rw [List.flatMap_cons, List.flatMap_append, List.map_cons]
    exact hfunction.trans (ih hrest)

end Checker

/-! ## §5 Programs -/

variable {bs : List FunctionInfo} {p : Program} {t : SideTable}

/-- The side table of a program has an entry for every node that can have one, and no others. -/
theorem adds_of_check (hcheck : check bs p = .ok t) :
    Adds p.expressions ((p.globals.map fun g => g.node.id) ++ localIds p.functions)
      (p.functions.map fun f => f.node.id) .empty t := by
  obtain ⟨s₁, s₂, hglobals, hfunctions, rfl, -⟩ := runs_of_check hcheck
  unfold Program.expressions Program.outermost
  rw [List.flatMap_append]
  exact (Checker.adds_of_globals hglobals).trans (Checker.adds_of_functions hfunctions)

end BlockLang
