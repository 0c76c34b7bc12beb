import BlockLang.Proofs.Table.Exactness
import BlockLang.Proofs.Typing.RuntimeNames

/-!
# Consistent side tables

Each entry that the checker records for an expression follows from the entries of the expression's children. Since ids
are distinct, no entry is replaced later, so the finished table obeys the typing rules at every node, read with the
table alone.

## Main definitions

- `SideTable.Obeys`: the rule for an expression, read with a table.
- `SideTable.ObeysGlobal`: the rules for the initial value of a global.

## Main statement

- `obeys_of_check`: the table of an accepted program obeys the rules at every node.
-/

namespace BlockLang

open SideTable Stateful

/-! ## §1 Rules -/

/-- What the typing rule for an expression says of the entries of the expression and its children. -/
def SideTable.Obeys (t : SideTable) : Expr → Prop
  | .literal node value => t.type? node.id = some value.type
  | .group node inner => ∃ τ, t.type? inner.id = some τ ∧ t.type? node.id = some τ
  | .binary node op left right => ∃ a b τ, t.type? left.id = some a ∧ t.type? right.id = some b ∧
      Ty.ofBinary? op a b = some τ ∧ t.type? node.id = some τ
  | .variable node _ => ∃ v, t.findVariable? node.id = some v ∧ t.type? node.id = some (if v.list then .any else v.type)
  | .element node _ index => ∃ v, t.findVariable? node.id = some v ∧ v.list = true ∧
      t.type? index.id = some .integer ∧ t.type? node.id = some v.type
  | .call node _ arguments => ∃ f, t.findFunction? node.id = some f ∧ t.type? node.id = some f.returns ∧
      List.Forall₂ (fun target e => ∃ σ, t.type? (Expr.id e) = some σ ∧ Ty.accepts target σ) f.parameters arguments
  | .list node items => ∃ τ, t.type? node.id = some τ ∧ ∀ e ∈ items, ∃ σ, t.type? e.id = some σ ∧ τ.accepts σ

/-- The initial value of a global obeys the rules, and a list that is written there has the type of its elements. -/
def SideTable.ObeysGlobal (t : SideTable) (g : Global) : Prop :=
  (∀ e ∈ g.value, ∀ x ∈ e.parts, t.Obeys x) ∧ ∀ node items, g.value = some (.list node items) →
    ∃ v, t.findVariable? g.node.id = some v ∧ v.list = true ∧ t.type? node.id = some v.type

/-- What is known of a table is known of every table that it has got entries on. -/
theorem SideTable.Keeps.of_adds {t u v : SideTable} {xs : List Expr} {declared defined : List Nat} (h : t.Keeps v)
    (hadds : Adds xs declared defined u v) : t.Keeps u :=
  ⟨fun hmem => h.types (hadds.types.subset hmem), fun hmem => h.vars (hadds.vars.subset hmem),
    fun hmem => h.funs (hadds.funs.subset hmem)⟩

/-! ## §2 Arities -/

/-- Every function is known by its number of parameters. -/
def Scope.Keyed (scope : Scope) : Prop :=
  ∀ frame ∈ scope.frames, ∀ x ∈ frame.funs, x.2.arity = x.1.2

namespace Scope.Keyed

variable {scope scope' : Scope}

theorem arity_eq (h : scope.Keyed) {name : String} {arity : Nat} {f : FunctionInfo}
    (hfind : scope.findFunction? name arity = some f) : f.arity = arity := by
  obtain ⟨frame, hframe, hlookup⟩ := List.exists_of_findSome?_eq_some hfind
  exact h frame hframe _ (mem_of_lookup hlookup)

theorem push (h : scope.Keyed) : scope.push.Keyed :=
  List.forall_mem_cons.mpr ⟨List.forall_mem_nil _, h⟩

theorem pop (h : scope.Keyed) : scope.pop.Keyed :=
  fun frame hframe => h frame (scope.frames_pop_subset hframe)

/-- A change of the innermost frame has to see to its functions alone. -/
theorem updateInnermost? (h : scope.Keyed) {change : StaticFrame → Option StaticFrame}
    (hchange : ∀ f g, change f = some g → (∀ x ∈ f.funs, x.2.arity = x.1.2) → ∀ x ∈ g.funs, x.2.arity = x.1.2)
    (hupdate : scope.updateInnermost? change = some scope') : scope'.Keyed := by
  obtain ⟨frame, hframe, changed, hchanged, hframes⟩ := frames_of_updateInnermost? hupdate
  intro x hx
  rcases hframes x hx with rfl | hx
  · exact hchange frame _ hchanged (h frame hframe)
  · exact h x hx

theorem defineVariable? (h : scope.Keyed) {v : VariableInfo} (hdefine : scope.defineVariable? v = some scope') :
    scope'.Keyed := by
  refine h.updateInnermost? (fun f g hchange hf => ?_) hdefine
  obtain ⟨-, rfl⟩ := Frame.defineVariable?_eq_some.mp hchange
  exact hf

theorem defineFunction? (h : scope.Keyed) {f : FunctionInfo} (hdefine : scope.defineFunction? f = some scope') :
    scope'.Keyed := by
  refine h.updateInnermost? (fun frame g hchange hframe => ?_) hdefine
  obtain ⟨-, rfl⟩ := Frame.defineFunction?_eq_some.mp hchange
  exact List.forall_mem_cons.mpr ⟨rfl, hframe⟩

end Scope.Keyed

theorem Scope.Rooted.keyed {scope : Scope} (h : scope.Rooted) : scope.Keyed := by
  unfold Scope.Keyed Scope.frames
  rw [h.inner]
  exact List.forall_mem_singleton.mpr h.arity

/-! ## §3 Expressions -/

/-- Two lists that are related to a third one are related to each other. -/
theorem forall₂_join {α β γ : Type} {R : α → β → Prop} {S : γ → β → Prop} {as : List α} {bs : List β} {cs : List γ}
    (h : List.Forall₂ R as bs) (h' : List.Forall₂ S cs bs) :
    List.Forall₂ (fun a c => ∃ b, S c b ∧ R a b) as cs := by
  induction h generalizing cs with
  | nil =>
    cases h'
    exact .nil
  | cons hab _ ih =>
    cases h' with
    | cons hcb htail => exact .cons ⟨_, hcb, hab⟩ (ih htail)

namespace Checker

variable {t : SideTable} {s s' : CheckerState}

mutual

/-- The type that the checker yields is recorded, and the rules hold for all expressions in the one it has checked. -/
theorem obeys_of_expression : ∀ (e : Expr) {s s' : CheckerState} {τ : Ty}, expression e s = .ok τ s' →
    s.scope.Keyed → t.Keeps s'.table → t.type? e.id = some τ ∧ ∀ x ∈ e.parts, t.Obeys x
  | .literal node value, s, s', τ, h, _, hkeeps => by
    obtain ⟨rfl, rfl⟩ := expression_literal_eq_ok h
    exact ⟨hkeeps.type?, List.forall_mem_singleton.mpr hkeeps.type?⟩
  | .group node inner, s, s', τ, h, hkeyed, hkeeps => by
    obtain ⟨-, s₁, hinner, rfl⟩ := expression_group_eq_ok h
    obtain ⟨htype, hobeys⟩ := obeys_of_expression inner hinner hkeyed (hkeeps.of_grows (.setType _ _ _))
    exact ⟨hkeeps.type?, List.forall_mem_cons.mpr ⟨⟨_, htype, hkeeps.type?⟩, hobeys⟩⟩
  | .binary node op left right, s, s', τ, h, hkeyed, hkeeps => by
    obtain ⟨a, b, s₁, s₂, hleft, hright, hop, rfl⟩ := expression_binary_eq_ok h
    -- The node's own type is entered last, and what the right operand adds leaves the left one's entries alone.
    have hkeeps₂ : t.Keeps s₂.table := hkeeps.of_grows (.setType _ _ _)
    have hkeyed₁ : s₁.scope.Keyed := (records_of_expression left hleft).scope ▸ hkeyed
    obtain ⟨ha, hobeys⟩ := obeys_of_expression left hleft hkeyed (hkeeps₂.of_adds (adds_of_expression right hright))
    obtain ⟨hb, hobeys'⟩ := obeys_of_expression right hright hkeyed₁ hkeeps₂
    refine ⟨hkeeps.type?, List.forall_mem_cons.mpr ⟨⟨a, b, τ, ha, hb, hop, hkeeps.type?⟩, ?_⟩⟩
    exact List.forall_mem_append.mpr ⟨hobeys, hobeys'⟩
  | .variable node name, s, s', τ, h, _, hkeeps => by
    obtain ⟨v, -, rfl, rfl⟩ := expression_variable_eq_ok h
    have hnode := (hkeeps.of_grows (.setType _ _ _)).findVariable?
    exact ⟨hkeeps.type?, List.forall_mem_singleton.mpr ⟨v, hnode, hkeeps.type?⟩⟩
  | .element node name index, s, s', τ, h, hkeyed, hkeeps => by
    obtain ⟨v, s₁, hindex, -, hlist, rfl, rfl⟩ := expression_element_eq_ok h
    obtain ⟨htype, hobeys⟩ := obeys_of_expression index hindex hkeyed (hkeeps.of_grows (.setAccess _ _ _ _))
    have hnode := (hkeeps.of_grows (.setType _ _ _)).findVariable?
    exact ⟨hkeeps.type?, List.forall_mem_cons.mpr ⟨⟨v, hnode, hlist, htype, hkeeps.type?⟩, hobeys⟩⟩
  | .call node name arguments, s, s', τ, h, hkeyed, hkeeps => by
    obtain ⟨found, f, s₁, harguments, hfind, hfits, rfl, rfl⟩ := expression_call_eq_ok h
    obtain ⟨htypes, hobeys⟩ := obeys_of_expressions arguments harguments hkeyed (hkeeps.of_grows (.setCall _ _ _ _))
    have hnode := (hkeeps.of_grows (.setType _ _ _)).findFunction?
    have hkeyed₁ : s₁.scope.Keyed := (records_of_expressions arguments harguments).scope ▸ hkeyed
    have haccepted := forall₂_join (hfits (hkeyed₁.arity_eq hfind)) htypes
    exact ⟨hkeeps.type?, List.forall_mem_cons.mpr ⟨⟨f, hnode, hkeeps.type?, haccepted⟩, hobeys⟩⟩
  | .list node elements, s, s', τ, h, hkeyed, hkeeps => by
    obtain ⟨found, s₁, helements, rfl, rfl⟩ := expression_list_eq_ok h
    obtain ⟨htypes, hobeys⟩ := obeys_of_expressions elements helements hkeyed (hkeeps.of_grows (.setType _ _ _))
    refine ⟨hkeeps.type?, List.forall_mem_cons.mpr ⟨⟨.any, hkeeps.type?, fun e he => ?_⟩, hobeys⟩⟩
    obtain ⟨σ, -, hσ⟩ := exists_of_mem_left htypes he
    exact ⟨σ, hσ, rfl⟩

theorem obeys_of_expressions : ∀ (es : List Expr) {s s' : CheckerState} {found : List Ty},
    expressions es s = .ok found s' → s.scope.Keyed → t.Keeps s'.table →
    List.Forall₂ (fun e σ => t.type? (Expr.id e) = some σ) es found ∧ ∀ x ∈ Expr.allParts es, t.Obeys x
  | [], s, s', found, h, _, _ => by
    cases h
    exact ⟨.nil, List.forall_mem_nil _⟩
  | e :: rest, s, s', found, h, hkeyed, hkeeps => by
    obtain ⟨τ, τs, s₁, hhead, htail, rfl⟩ := expressions_cons_eq_ok h
    have hkeyed₁ : s₁.scope.Keyed := (records_of_expression e hhead).scope ▸ hkeyed
    obtain ⟨htype, hobeys⟩ := obeys_of_expression e hhead hkeyed (hkeeps.of_adds (adds_of_expressions rest htail))
    obtain ⟨htypes, hobeys'⟩ := obeys_of_expressions rest htail hkeyed₁ hkeeps
    exact ⟨.cons htype htypes, List.forall_mem_append.mpr ⟨hobeys, hobeys'⟩⟩

end

/-! ## §4 Walks, globals and functions -/

theorem keyed_of_walk {locals : Names} {es : List Expr} (h : Walk locals es s s') (hkeyed : s.scope.Keyed) :
    s'.scope.Keyed := by
  induction h with
  | stay => exact hkeyed
  | check hcheck => exact (records_of_expression _ hcheck).scope ▸ hkeyed
  | declare _ _ _ _ hdefine => exact hkeyed.defineVariable? hdefine
  | block _ ih => exact (ih hkeyed.push).pop
  | append _ _ ih ih' => exact ih' (ih hkeyed)

theorem obeys_of_walk {locals : Names} {es : List Expr} (h : Walk locals es s s') (hkeyed : s.scope.Keyed)
    (hkeeps : t.Keeps s'.table) : ∀ e ∈ es, ∀ x ∈ e.parts, t.Obeys x := by
  induction h with
  | stay | declare => exact List.forall_mem_nil _
  | check hcheck => exact List.forall_mem_singleton.mpr (obeys_of_expression _ hcheck hkeyed hkeeps).2
  | block _ ih => exact ih hkeyed.push hkeeps
  | append hfirst hrest ih ih' =>
    have hbefore := ih hkeyed (hkeeps.of_adds (adds_of_walk hrest))
    exact List.forall_mem_append.mpr ⟨hbefore, ih' (keyed_of_walk hfirst hkeyed) hkeeps⟩

theorem obeysGlobal_of_global {g : Global} {u : Unit} (h : global g s = .ok u s') (hkeyed : s.scope.Keyed) :
    s'.scope.Keyed ∧ (t.Keeps s'.table → t.ObeysGlobal g) := by
  obtain ⟨declared, τ, s₁, scope, -, htype, hdefine, rfl⟩ := global_eq_ok h
  have hkeyed₁ : s₁.scope.Keyed := (accepts_of_globalType htype).1.scope ▸ hkeyed
  refine ⟨hkeyed₁.defineVariable? hdefine, fun hkeeps => ?_⟩
  have hrecorded := hkeeps.findVariable?
  have hkeeps₁ : t.Keeps s₁.table := hkeeps.of_grows (.setVariable _ _ _)
  unfold SideTable.ObeysGlobal
  obtain ⟨hvalue, -, rfl⟩ | ⟨node, items, s₂, hvalue, -, helements, rfl⟩ | ⟨e, σ, hvalue, hlist, -, -, hexpression⟩ :=
    globalType_cases htype
  · rw [hvalue]
    exact ⟨nofun, nofun⟩
  · obtain ⟨found, hfound, hfits⟩ := expressions_of_elements helements
    obtain ⟨htypes, hobeys⟩ := obeys_of_expressions items hfound hkeyed (hkeeps₁.of_grows (.setType _ _ _))
    have hitems : ∀ e ∈ items, ∃ σ, t.type? e.id = some σ ∧ τ.accepts σ := by
      intro e he
      obtain ⟨σ, hσ, htype⟩ := exists_of_mem_left htypes he
      exact ⟨σ, htype, hfits σ hσ⟩
    rw [hvalue]
    refine ⟨?_, ?_⟩
    · rintro _ ⟨⟩
      exact List.forall_mem_cons.mpr ⟨⟨τ, hkeeps₁.type?, hitems⟩, hobeys⟩
    · rintro _ _ ⟨⟩
      exact ⟨_, hrecorded, by simp [Global.isList, hvalue, Expr.isList], hkeeps₁.type?⟩
  · rw [hvalue]
    refine ⟨?_, ?_⟩
    · rintro _ ⟨⟩
      exact (obeys_of_expression e hexpression hkeyed hkeeps₁).2
    · rintro node items ⟨⟩
      cases hlist

theorem obeys_of_globals {gs : List Global} {u : Unit} (h : globals gs s = .ok u s') (hkeyed : s.scope.Keyed) :
    s'.scope.Keyed ∧ (t.Keeps s'.table → ∀ g ∈ gs, t.ObeysGlobal g) := by
  induction gs generalizing s with
  | nil =>
    cases h
    exact ⟨hkeyed, fun _ => List.forall_mem_nil _⟩
  | cons g rest ih =>
    rw [globals] at h
    obtain ⟨_, s₁, hfirst, hrest⟩ := bind_eq_ok.mp h
    obtain ⟨hkeyed₁, hobeys⟩ := obeysGlobal_of_global hfirst hkeyed
    obtain ⟨hkeyed', hobeys'⟩ := ih hrest hkeyed₁
    refine ⟨hkeyed', fun hkeeps => ?_⟩
    exact List.forall_mem_cons.mpr ⟨hobeys (hkeeps.of_adds (adds_of_globals hrest)), hobeys' hkeeps⟩

theorem obeys_of_functions {fs : List Function} {u : Unit} (h : functions fs s = .ok u s') (hkeyed : s.scope.Keyed)
    (hkeeps : t.Keeps s'.table) : ∀ f ∈ fs, ∀ e ∈ blockExpressions f.body, ∀ x ∈ e.parts, t.Obeys x := by
  induction fs generalizing s with
  | nil => exact List.forall_mem_nil _
  | cons f rest ih =>
    rw [functions] at h
    obtain ⟨_, s₁, hfirst, hrest⟩ := bind_eq_ok.mp h
    obtain ⟨info, scope, -, hdefine, hwalk⟩ := walk_of_function hfirst
    have hkeyed₁ : scope.Keyed := hkeyed.defineFunction? hdefine
    have hfunction := obeys_of_walk hwalk hkeyed₁ (hkeeps.of_adds (adds_of_functions hrest))
    exact List.forall_mem_cons.mpr ⟨hfunction, ih hrest (keyed_of_walk hwalk hkeyed₁)⟩

end Checker

/-! ## §5 Programs -/

variable {bs : List FunctionInfo} {p : Program} {t : SideTable}

/-- The side table of a program whose ids are distinct obeys the typing rules at every node. -/
theorem obeys_of_check (hcheck : check bs p = .ok t) (hids : p.ids.Nodup) :
    (∀ e ∈ p.expressions, t.Obeys e) ∧ ∀ g ∈ p.globals, t.ObeysGlobal g := by
  have hkeeps := keeps_of_check hcheck hids
  obtain ⟨s₁, s₂, hglobals, hfunctions, rfl, -⟩ := runs_of_check hcheck
  obtain ⟨hkeyed, hobeys⟩ := Checker.obeys_of_globals hglobals (rooted_withFunctions bs).keyed
  have hobeysGlobal := hobeys (hkeeps.of_adds (Checker.adds_of_functions hfunctions))
  refine ⟨fun x hx => ?_, hobeysGlobal⟩
  obtain ⟨e, he, hpart⟩ := List.mem_flatMap.mp hx
  rcases List.mem_append.mp he with he | he
  · obtain ⟨g, hg, hvalue⟩ := List.mem_flatMap.mp he
    exact (hobeysGlobal g hg).1 e (Option.mem_toList.mp hvalue) x hpart
  · obtain ⟨f, hf, hbody⟩ := List.mem_flatMap.mp he
    exact Checker.obeys_of_functions hfunctions hkeyed hkeeps f hf e hbody x hpart

end BlockLang
