import BlockLang.Proofs.Typing.LocalNames
import BlockLang.Proofs.Typing.Walk

/-!
# The runtime names of a program

Checking a function hands out one runtime name for each of its parameters and local declarations, in the order of the
text, and records it for the declaration; checking expressions hands out none.  So the locals of one function all have
different runtime names.  Globals and functions get their mangled names, whatever the locals are called.

## Main statements

- `grants_of_check`, `localNames_of_check`: the names of the locals of a function.
- `globalName_of_check`, `functionName_of_check`: the names of globals and functions.
-/

namespace BlockLang

open Stateful

/-! ## §1 Handing out names -/

/-- The entries that declared locals get: their runtime names are the next ones that are handed out. -/
structure LocalNames.Grants (locals : Names) (entries : List (Nat × VariableInfo)) (names names' : LocalNames) :
    Prop where
  declared : entries.map (fun x => (x.2.name, x.1)) = locals
  handed : names.handOut (locals.map Prod.fst) = (entries.map fun x => x.2.runtimeName, names')

namespace LocalNames.Grants

variable {locals more : Names} {entries others : List (Nat × VariableInfo)} {names names' names'' : LocalNames}

theorem refl (names : LocalNames) : Grants [] [] names names :=
  ⟨rfl, rfl⟩

theorem trans (h : Grants locals entries names names') (h' : Grants more others names' names'') :
    Grants (locals ++ more) (entries ++ others) names names'' :=
  ⟨by rw [List.map_append, h.declared, h'.declared], by simp [handOut_append, h.handed, h'.handed]⟩

/-- One local gets the next name. -/
theorem fresh (names : LocalNames) (id : Nat) (name : String) (τ : Ty) (mutable list : Bool) :
    Grants [(name, id)] [(id, ⟨name, (names.fresh name).1, τ, mutable, list⟩)] names (names.fresh name).2 :=
  ⟨rfl, rfl⟩

/-- An entry has the name of its local, with some suffix. -/
theorem suffixed (h : Grants locals entries names names') :
    ∀ x ∈ entries, ∃ k, x.2.runtimeName = candidate (mangle x.2.name) k := by
  have hnames := forall₂_handOut names (locals.map Prod.fst)
  rw [h.handed, ← h.declared, List.map_map, List.forall₂_map_left_iff, List.forall₂_map_right_iff,
    List.forall₂_same] at hnames
  exact hnames

end LocalNames.Grants

namespace Checker

variable {s s' : CheckerState}

/-! ## §2 Functions -/

/-- The locals that a walk declares get the names that are handed out next. -/
theorem grants_of_walk {locals : Names} {es : List Expr} (h : Walk locals es s s') : s.table.vars ⊆ s'.table.vars ∧
    ∃ entries, entries ⊆ s'.table.vars ∧ LocalNames.Grants locals entries s.locals s'.locals := by
  induction h with
  | stay s => exact ⟨List.Subset.refl _, [], List.nil_subset _, .refl _⟩
  | @check e τ s s' hcheck =>
    have hrecords := records_of_expression e hcheck
    refine ⟨hrecords.vars_subset, [], List.nil_subset _, ?_⟩
    rw [hrecords.locals]
    exact .refl _
  | @declare s scope node name τ list hdefine =>
    refine ⟨List.subset_cons_self _ _, _, ?_, .fresh s.locals node.id name τ true list⟩
    exact List.cons_subset.mpr ⟨List.mem_cons_self, List.nil_subset _⟩
  | block _ ih => exact ih
  | append _ _ ih ih' =>
    obtain ⟨hvars, entries, hentries, hgrants⟩ := ih
    obtain ⟨hvars', others, hothers, hgrants'⟩ := ih'
    -- What the first part has recorded is still there after the second.
    exact ⟨List.Subset.trans hvars hvars', entries ++ others,
      List.append_subset.mpr ⟨List.Subset.trans hentries hvars', hothers⟩, hgrants.trans hgrants'⟩

theorem grants_of_functions {fs : List Function} {u : Unit} (h : functions fs s = .ok u s') :
    s.table.vars ⊆ s'.table.vars ∧ ∀ f ∈ fs, ∃ entries names, entries ⊆ s'.table.vars ∧
      LocalNames.Grants f.locals entries .empty names := by
  induction fs generalizing s with
  | nil =>
    cases h
    exact ⟨List.Subset.refl _, List.forall_mem_nil _⟩
  | cons f rest ih =>
    rw [functions] at h
    obtain ⟨_, s₁, hfirst, hrest⟩ := bind_eq_ok.mp h
    -- Entering a function frees all names, whatever the functions before have taken.
    obtain ⟨info, scope, -, -, hwalk⟩ := walk_of_function hfirst
    obtain ⟨hvars, entries, hentries, hgrants⟩ := grants_of_walk hwalk
    obtain ⟨hvars', hothers⟩ := ih hrest
    refine ⟨List.Subset.trans hvars hvars', List.forall_mem_cons.mpr ⟨?_, hothers⟩⟩
    exact ⟨entries, s₁.locals, List.Subset.trans hentries hvars', hgrants⟩

/-! ## §3 Globals and functions -/

/-- A global gets its mangled name. -/
theorem named_of_global {g : Global} {u : Unit} (h : global g s = .ok u s') : s.table.vars ⊆ s'.table.vars ∧
    ∃ v, (g.node.id, v) ∈ s'.table.vars ∧ v.name = g.name ∧ v.runtimeName = mangle g.name := by
  obtain ⟨s₁, info, scope, hname, hruntime, hrecords, -, -, rfl⟩ := records_of_global h
  exact ⟨List.subset_cons_of_subset _ hrecords.vars_subset, info, List.mem_cons_self, hname, hruntime⟩

theorem named_of_globals {gs : List Global} {u : Unit} (h : globals gs s = .ok u s') :
    s.table.vars ⊆ s'.table.vars ∧
      ∀ g ∈ gs, ∃ v, (g.node.id, v) ∈ s'.table.vars ∧ v.name = g.name ∧ v.runtimeName = mangle g.name := by
  induction gs generalizing s with
  | nil =>
    cases h
    exact ⟨List.Subset.refl _, List.forall_mem_nil _⟩
  | cons g rest ih =>
    rw [globals] at h
    obtain ⟨_, s₁, hfirst, hrest⟩ := bind_eq_ok.mp h
    obtain ⟨hvars, v, hv, hnames⟩ := named_of_global hfirst
    obtain ⟨hvars', hothers⟩ := ih hrest
    refine ⟨List.Subset.trans hvars hvars', List.forall_mem_cons.mpr ⟨?_, hothers⟩⟩
    exact ⟨v, hvars' hv, hnames⟩

/-- A walk loses no entry of a function. -/
theorem funs_subset_of_walk {locals : Names} {es : List Expr} (h : Walk locals es s s') :
    s.table.funs ⊆ s'.table.funs := by
  induction h with
  | stay | declare => exact List.Subset.refl _
  | @check e τ s s' hcheck => exact (records_of_expression e hcheck).funs_subset
  | block _ ih => exact ih
  | append _ _ ih ih' => exact List.Subset.trans ih ih'

/-- A function gets its mangled name. -/
theorem named_of_functions {fs : List Function} {u : Unit} (h : functions fs s = .ok u s') :
    s.table.funs ⊆ s'.table.funs ∧
      ∀ f ∈ fs, ∃ info, (f.node.id, info) ∈ s'.table.funs ∧ info.runtimeName = mangle f.name := by
  induction fs generalizing s with
  | nil =>
    cases h
    exact ⟨List.Subset.refl _, List.forall_mem_nil _⟩
  | cons f rest ih =>
    rw [functions] at h
    obtain ⟨_, s₁, hfirst, hrest⟩ := bind_eq_ok.mp h
    obtain ⟨info, scope, hname, -, hwalk⟩ := walk_of_function hfirst
    have hfuns := funs_subset_of_walk hwalk
    obtain ⟨hfuns', hothers⟩ := ih hrest
    have hmem : (f.node.id, info) ∈ s₁.table.funs := hfuns List.mem_cons_self
    refine ⟨List.Subset.trans (List.Subset.trans (List.subset_cons_self _ _) hfuns) hfuns', ?_⟩
    exact List.forall_mem_cons.mpr ⟨⟨info, hfuns' hmem, hname⟩, hothers⟩

end Checker

/-! ## §4 Programs -/

variable {p : Program} {t : SideTable}

/-- The table of a program whose ids are distinct has what has been recorded along the way. -/
theorem keeps_of_check {bs : List FunctionInfo} (hcheck : check bs p = .ok t) (hids : p.ids.Nodup) : t.Keeps t := by
  obtain ⟨s₁, s₂, hglobals, hfunctions, rfl, -⟩ := runs_of_check hcheck
  have hroot := rooted_withFunctions bs
  obtain ⟨hsg, hfuns, -⟩ := Checker.globalsTyped_of_globals (t := s₂.table) (B := []) (F := []) [] hroot.inner hglobals
  have hkeys : (s₁.scope.root.funs.map Prod.fst).Nodup := by
    rw [hfuns]
    exact hroot.nodup
  obtain ⟨hsf, -⟩ := Checker.functionsTyped_of_functions (t := s₂.table) (B := []) (F := p.functions) []
    hsg.inner (List.Subset.refl _) hkeys hfunctions
  exact SideTable.keeps_self (hsg.grows.trans hsf.grows) hids

/-- The locals of a function have entries, with the names that are handed out for them. -/
theorem grants_of_check (hcheck : check builtins p = .ok t) (hids : p.ids.Nodup) {f : Function}
    (hf : f ∈ p.functions) : ∃ entries names, (∀ x ∈ entries, t.findVariable? x.1 = some x.2) ∧
      LocalNames.Grants f.locals entries .empty names := by
  have hkeeps := keeps_of_check hcheck hids
  obtain ⟨s₁, s₂, -, hfunctions, rfl, -⟩ := runs_of_check hcheck
  obtain ⟨entries, names, hentries, hgrants⟩ := (Checker.grants_of_functions hfunctions).2 f hf
  exact ⟨entries, names, fun x hx => hkeeps.vars (hentries hx), hgrants⟩

/-- The locals of a function have entries of their names, and all their runtime names are different. -/
theorem localNames_of_check (hcheck : check builtins p = .ok t) (hids : p.ids.Nodup) {f : Function}
    (hf : f ∈ p.functions) : ∃ entries : List (Nat × VariableInfo),
      entries.map (fun x => (x.2.name, x.1)) = f.locals ∧ (∀ x ∈ entries, t.findVariable? x.1 = some x.2) ∧
      (entries.map fun x => x.2.runtimeName).Nodup ∧
      ∀ x ∈ entries, ∃ k, x.2.runtimeName = LocalNames.candidate (mangle x.2.name) k := by
  obtain ⟨entries, names, hentries, hgrants⟩ := grants_of_check hcheck hids hf
  refine ⟨entries, hgrants.declared, hentries, ?_, hgrants.suffixed⟩
  simpa [hgrants.handed] using LocalNames.nodup_handOut (f.locals.map Prod.fst)

/-- A global has an entry of its name and gets its mangled name at runtime. -/
theorem globalName_of_check (hcheck : check builtins p = .ok t) (hids : p.ids.Nodup) {g : Global}
    (hg : g ∈ p.globals) :
    ∃ v, t.findVariable? g.node.id = some v ∧ v.name = g.name ∧ v.runtimeName = mangle g.name := by
  have hkeeps := keeps_of_check hcheck hids
  obtain ⟨s₁, s₂, hglobals, hfunctions, rfl, -⟩ := runs_of_check hcheck
  obtain ⟨v, hv, hname, hruntime⟩ := (Checker.named_of_globals hglobals).2 g hg
  exact ⟨v, hkeeps.vars ((Checker.grants_of_functions hfunctions).1 hv), hname, hruntime⟩

/-- A function has an entry and gets its mangled name at runtime. -/
theorem functionName_of_check (hcheck : check builtins p = .ok t) (hids : p.ids.Nodup) {f : Function}
    (hf : f ∈ p.functions) : ∃ info, t.findFunction? f.node.id = some info ∧ info.runtimeName = mangle f.name := by
  have hkeeps := keeps_of_check hcheck hids
  obtain ⟨s₁, s₂, -, hfunctions, rfl, -⟩ := runs_of_check hcheck
  obtain ⟨info, hinfo, hruntime⟩ := (Checker.named_of_functions hfunctions).2 f hf
  exact ⟨info, hkeeps.funs hinfo, hruntime⟩

end BlockLang
