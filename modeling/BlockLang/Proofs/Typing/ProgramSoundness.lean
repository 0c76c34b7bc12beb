import BlockLang.Proofs.Typing.Soundness

/-!
# Soundness of the checker for programs

Globals and functions are defined in the root scope, one after the other.  A function sees all globals, itself and
the functions before it; its parameters share the block of its body.

## Main statement

- `programTyped_of_check`: an accepted program whose ids are distinct obeys the typing rules of its side table.
-/

namespace BlockLang

open SideTable Stateful

/-- A checker outside every block has recorded entries under the given ids. -/
structure CheckerState.StaysOutside (ids : List Nat) (s s' : CheckerState) : Prop where
  inner : s'.scope.inner = []
  grows : s.table.Grows ids s'.table

namespace CheckerState.StaysOutside

variable {ids more : List Nat} {s s' s'' : CheckerState}

theorem refl (hinner : s.scope.inner = []) : s.StaysOutside [] s :=
  ⟨hinner, .refl _ _⟩

theorem trans (h : s.StaysOutside ids s') (h' : s'.StaysOutside more s'') : s.StaysOutside (ids ++ more) s'' :=
  ⟨h'.inner, h.grows.trans h'.grows⟩

end CheckerState.StaysOutside

/-- What a function is known by. -/
def Function.key (f : Function) : String × Nat := (f.name, f.arity)

/-- A scope without blocks is its root. -/
theorem Scope.Matches.names_of_root {t : SideTable} {F : List Function} {scope : Scope} {names : Names}
    (h : scope.Matches t F [names]) :
    Aligned (fun v d => t.findVariable? d = some v) scope.root.vars names := by
  obtain ⟨hframes, -, -⟩ := h
  obtain ⟨root, inner⟩ := scope
  -- One list of names leaves room for one frame, which is the root.
  cases inner with
  | nil =>
    cases hframes with
    | cons haligned _ => exact haligned
  | cons frame outer =>
    have hlength := hframes.length_eq
    simp [Scope.frames] at hlength

/-- The root alone decides what is matched when no block is open. -/
theorem Scope.matches_root {t : SideTable} {F : List Function} {scope : Scope} {names : Names}
    (hinner : scope.inner = []) (hnames : Aligned (fun v d => t.findVariable? d = some v) scope.root.vars names)
    (hroot : ∀ {name arity f}, scope.root.findFunction? name arity = some f →
      Callee t F name arity f ∧ f.arity = arity) : scope.Matches t F [names] := by
  refine ⟨?_, ?_, hroot⟩
  · rw [Scope.frames, hinner]
    exact .cons hnames .nil
  · rw [hinner]
    exact List.forall_mem_nil _

/-- Outside every block, a definition is one of the root frame. -/
theorem Scope.updateInnermost?_root {scope : Scope} (hinner : scope.inner = [])
    (change : StaticFrame → Option StaticFrame) :
    scope.updateInnermost? change = (change scope.root).map fun root => ⟨root, []⟩ := by
  unfold updateInnermost?
  rw [hinner]

/-- Outside every block, a function is defined in the root, which did not have its name and arity. -/
theorem Scope.defineFunction?_root {scope scope' : Scope} {f : FunctionInfo} (hinner : scope.inner = [])
    (h : scope.defineFunction? f = some scope') : scope.root.funs.lookup (f.name, f.arity) = none ∧
      scope' = ⟨⟨scope.root.vars, ((f.name, f.arity), f) :: scope.root.funs⟩, []⟩ := by
  obtain ⟨root, hroot, rfl⟩ := Option.map_eq_some_iff.mp ((updateInnermost?_root hinner _).symm.trans h)
  obtain ⟨hnew, rfl⟩ := Frame.defineFunction?_eq_some.mp hroot
  exact ⟨hnew, rfl⟩

namespace Checker

variable {t : SideTable} {B : List (Nat × Nat)} {F : List Function} {s s' : CheckerState}

/-! ## §1 Globals -/

/-- Outside every block, a variable is defined in the root, which did not have its name. -/
theorem defineVariable_root {node : Node} {v : VariableInfo} {scope : Scope} (hinner : s.scope.inner = [])
    (hdefine : s.scope.defineVariable? v = some scope)
    (heq : s' = { s with scope := scope, table := s.table.setVariable node.id v }) : s.StaysOutside [node.id] s' ∧
      s'.scope.root.funs = s.scope.root.funs ∧
      (t.Keeps s'.table → ∀ names, s.scope.Matches t F [names] → names.lookup v.name = none ∧
        t.findVariable? node.id = some v ∧ s'.scope.Matches t F [(v.name, node.id) :: names]) := by
  subst heq
  obtain ⟨root, hroot, rfl⟩ := Option.map_eq_some_iff.mp ((Scope.updateInnermost?_root hinner _).symm.trans hdefine)
  -- The root refuses a name that it has.
  obtain ⟨hnew, rfl⟩ := Frame.defineVariable?_eq_some.mp hroot
  refine ⟨⟨rfl, .setVariable _ _ _⟩, rfl, fun hkeeps names hmatches => ?_⟩
  have hnames := hmatches.names_of_root
  refine ⟨(hnames.lookup_eq_none_iff _).mp hnew, hkeeps.findVariable?, ?_⟩
  exact Scope.matches_root rfl (.cons hkeeps.findVariable? hnames) hmatches.root

/-- Elements that fit a type are accepted as expressions. -/
theorem expressions_of_elements {target : Ty} {items : List Expr} {u : Unit} (h : elements target items s = .ok u s') :
    ∃ found, expressions items s = .ok found s' ∧ ∀ σ ∈ found, target.accepts σ := by
  induction items generalizing s with
  | nil =>
    cases h
    exact ⟨[], rfl, List.forall_mem_nil _⟩
  | cons e rest ih =>
    rw [elements] at h
    obtain ⟨σ, s₁, hfirst, h₁⟩ := bind_eq_ok.mp h
    obtain ⟨_, s₂, hassignable, hrest⟩ := bind_eq_ok.mp h₁
    obtain ⟨haccepts, rfl⟩ := requireAssignable_eq_ok.mp hassignable
    obtain ⟨found, hfound, hfits⟩ := ih hrest
    refine ⟨σ :: found, ?_, List.forall_mem_cons.mpr ⟨haccepts, hfits⟩⟩
    rw [expressions, bind_of_ok hfirst, bind_of_ok hfound]
    rfl

/-- A single initial value is checked like any expression. -/
theorem globalType_of_value {g : Global} {declared : Option Ty} {e : Expr} (hvalue : g.value = some e)
    (hlist : e.isList = false) : globalType g declared = expression e >>= fun found =>
      match declared with
      | some target =>
        if target.accepts found then pure target
        else throw (.variableMismatch g.name target found g.node.offset)
      | none => pure found := by
  unfold globalType
  rw [hvalue]
  cases e with
  | list => cases hlist
  | literal | group | binary | «variable» | element | call => rfl

/-- The type of a global is found without its value, from the elements of a list, or from a single expression. -/
theorem globalType_cases {g : Global} {declared : Option Ty} {τ : Ty} (h : globalType g declared s = .ok τ s') :
    (g.value = none ∧ declared = some τ ∧ s' = s) ∨
      (∃ node items s₁, g.value = some (.list node items) ∧ τ = declared.getD .any ∧ elements τ items s = .ok () s₁ ∧
        s' = { s₁ with table := s₁.table.setType node.id τ }) ∨
      ∃ e σ, g.value = some e ∧ e.isList = false ∧ τ = declared.getD σ ∧ (∀ target ∈ declared, target.accepts σ) ∧
        expression e s = .ok σ s' := by
  cases hvalue : g.value with
  | none =>
    unfold globalType at h
    simp only [hvalue] at h
    cases declared with
    | none => cases h
    | some target =>
      cases h
      exact .inl ⟨rfl, rfl, rfl⟩
  | some e =>
    cases hlist : e.isList with
    | true =>
      cases e with
      | list node items =>
        unfold globalType at h
        simp only [hvalue] at h
        obtain ⟨_, s₁, helements, hset⟩ := bind_eq_ok.mp h
        obtain ⟨rfl, rfl⟩ := setType_eq_ok.mp hset
        exact .inr (.inl ⟨node, items, s₁, rfl, rfl, helements, rfl⟩)
      | literal | group | binary | «variable» | element | call => cases hlist
    | false =>
      rw [globalType_of_value hvalue hlist] at h
      obtain ⟨σ, s₁, hexpression, h₁⟩ := bind_eq_ok.mp h
      refine .inr (.inr ⟨e, σ, rfl, hlist, ?_⟩)
      cases declared with
      | none =>
        cases h₁
        exact ⟨rfl, fun target htarget => absurd htarget (Option.not_mem_none target), hexpression⟩
      | some target =>
        simp only at h₁
        split_ifs at h₁ with haccepts
        · cases h₁
          exact ⟨rfl, fun _ htarget => Option.some.inj htarget ▸ haccepts, hexpression⟩
        · cases h₁

theorem globalValue_of_globalType {Γ : Context} {g : Global} {declared : Option Ty} {τ : Ty}
    (h : globalType g declared s = .ok τ s') : s.Proceeds (Expr.optionIds g.value) s' ∧
      (t.Keeps s'.table → s.scope.Reads t F Γ → Expr.optionBindings Γ g.value ⊆ B →
        GlobalValue t B F Γ g.value τ) := by
  obtain ⟨hvalue, -, rfl⟩ | ⟨node, items, s₁, hvalue, -, helements, rfl⟩ |
    ⟨e, σ, hvalue, hlist, rfl, haccepts, hexpression⟩ := globalType_cases h
  · rw [hvalue]
    exact ⟨.refl _ _, fun _ _ _ => .absent⟩
  · obtain ⟨found, hfound, hfits⟩ := expressions_of_elements helements
    obtain ⟨hproceeds, htyped⟩ := haveTypes_of_expressions (t := t) (B := B) (F := F) (Γ := Γ) items hfound
    rw [hvalue]
    refine ⟨(hproceeds.trans (.setType _ _ _)).perm List.perm_append_comm, fun hkeeps hreads hbind => ?_⟩
    exact .list (htyped (hkeeps.of_grows (.setType _ _ _)) hreads hbind) hfits hkeeps.type?
  · obtain ⟨hproceeds, htyped⟩ := hasType_of_expression (t := t) (B := B) (F := F) (Γ := Γ) e hexpression
    rw [hvalue]
    refine ⟨hproceeds, fun hkeeps hreads hbind => .value hlist (htyped hkeeps hreads hbind) ?_⟩
    cases declared with
    | none => exact .inl rfl
    | some target => exact .inr (haccepts target rfl)

/-- The initial value of a global is checked in the scope before it, and then the global is defined. -/
theorem global_eq_ok {g : Global} {u : Unit} (h : global g s = .ok u s') : ∃ declared τ s₁ scope,
    resolveType? g.type g.node.offset s = .ok declared s ∧ globalType g declared s = .ok τ s₁ ∧
      s₁.scope.defineVariable? ⟨g.name, mangle g.name, τ, g.mutable, g.isList⟩ = some scope ∧
      s' = { s₁ with
        scope := scope
        table := s₁.table.setVariable g.node.id ⟨g.name, mangle g.name, τ, g.mutable, g.isList⟩ } := by
  unfold global at h
  obtain ⟨declared, s₁, hresolve, h₁⟩ := bind_eq_ok.mp h
  obtain rfl := resolveType?_eq_ok hresolve
  obtain ⟨τ, s₂, htype, hdefine⟩ := bind_eq_ok.mp h₁
  obtain ⟨scope, hscope, rfl⟩ := defineVariable_eq_ok.mp hdefine
  exact ⟨declared, τ, s₂, scope, hresolve, htype, hscope, rfl⟩

theorem globalsTyped_of_globals {gs : List Global} (names : Names) {u : Unit} (hinner : s.scope.inner = [])
    (h : globals gs s = .ok u s') : s.StaysOutside (gs.flatMap Global.ids) s' ∧
      s'.scope.root.funs = s.scope.root.funs ∧
      (t.Keeps s'.table → s.scope.Matches t F [names] → globalBindings names gs ⊆ B →
        GlobalsTyped t B F names gs ∧ s'.scope.Matches t F [globalNames gs ++ names]) := by
  -- The invariant: the root has exactly the names of the globals so far.
  induction gs generalizing s names with
  | nil =>
    cases h
    exact ⟨.refl hinner, rfl, fun _ hmatches _ => ⟨.nil, hmatches⟩⟩
  | cons g rest ih =>
    rw [globals] at h
    obtain ⟨_, s₁, hglobal, hrest⟩ := bind_eq_ok.mp h
    obtain ⟨declared, τ, s₃, scope, -, htype, hscope, heq⟩ := global_eq_ok hglobal
    obtain ⟨hpv, htv⟩ := globalValue_of_globalType (t := t) (B := B) (F := F) (Γ := [names]) htype
    have hinner₃ : s₃.scope.inner = [] := hpv.scope ▸ hinner
    obtain ⟨hsd, hfuns, htd⟩ := defineVariable_root (t := t) (F := F) hinner₃ hscope heq
    obtain ⟨hsr, hfuns', htr⟩ := ih ((g.name, g.node.id) :: names) hsd.inner hrest
    refine ⟨?_, hfuns'.trans (hfuns.trans (by rw [hpv.scope])), fun hkeeps hmatches hbind => ?_⟩
    · refine ⟨hsr.inner, ?_⟩
      rw [List.flatMap_cons]
      exact ((hpv.grows.trans hsd.grows).perm List.perm_append_comm).trans hsr.grows
    · obtain ⟨hbv, hbr⟩ := List.append_subset.mp hbind
      have hkeeps₁ : t.Keeps s₁.table := hkeeps.of_grows hsr.grows
      have hmatches₃ : s₃.scope.Matches t F [names] := hpv.scope ▸ hmatches
      obtain ⟨hfresh, hrecorded, hmatches₁⟩ := htd hkeeps₁ names hmatches₃
      obtain ⟨htyped, hmatches'⟩ := htr hkeeps hmatches₁ hbr
      have hvalue := htv (hkeeps₁.of_grows hsd.grows) hmatches.reads hbv
      refine ⟨.cons hvalue hfresh hrecorded rfl rfl rfl htyped, ?_⟩
      simpa [globalNames] using hmatches'

/-! ## §2 Parameters -/

theorem length_of_parameterTypes {ps : List Parameter} {types : List Ty} (h : parameterTypes ps s = .ok types s') :
    s' = s ∧ types.length = ps.length := by
  induction ps generalizing types s with
  | nil =>
    cases h
    exact ⟨rfl, rfl⟩
  | cons p rest ih =>
    rw [parameterTypes] at h
    obtain ⟨τ, s₁, hresolve, h₁⟩ := bind_eq_ok.mp h
    obtain ⟨τs, s₂, hrest, h₂⟩ := bind_eq_ok.mp h₁
    cases h₂
    obtain rfl := resolveType_eq_ok hresolve
    obtain ⟨rfl, hlength⟩ := ih hrest
    exact ⟨rfl, congrArg (· + 1) hlength⟩

/-- Parameters are defined in order in the innermost block, under names that it did not have. -/
theorem parametersTyped_of_parameters {ps : List Parameter} {types : List Ty} (names : Names) (outer : Context)
    {u : Unit} (hinner : s.scope.inner ≠ []) (hlength : types.length = ps.length)
    (h : parameters ps types s = .ok u s') : s.Stays (ps.map fun p => p.node.id) s' ∧
      (t.Keeps s'.table → s.scope.Matches t F (names :: outer) →
        List.Forall₂ (ParameterTyped t) ps types ∧ (ps.map Parameter.name).Nodup ∧
          (∀ p ∈ ps, names.lookup p.name = none) ∧
          s'.scope.Matches t F ((parameterNames ps ++ names) :: outer)) := by
  induction ps generalizing types s names with
  | nil =>
    obtain rfl := List.length_eq_zero_iff.mp hlength
    cases h
    refine ⟨.of_proceeds hinner (.refl _ _), fun _ hmatches => ?_⟩
    exact ⟨.nil, List.nodup_nil, List.forall_mem_nil _, hmatches⟩
  | cons p rest ih =>
    cases types with
    | nil => cases hlength
    | cons τ τs =>
      rw [parameters, freshName_bind] at h
      obtain ⟨_, s₁, hdefine, hrest⟩ := bind_eq_ok.mp h
      obtain ⟨hsd, htd⟩ := stays_of_defineVariable (s := { s with locals := (s.locals.fresh p.name).2 })
        (t := t) (F := F) (Γ := names :: outer) hinner hdefine
      obtain ⟨hsr, htr⟩ := ih ((p.name, p.node.id) :: names) hsd.inner (Nat.succ.inj hlength) hrest
      have hstays : s.Stays [p.node.id] s₁ := ⟨hsd.inner, hsd.root, hsd.outer, hsd.returns, hsd.grows⟩
      refine ⟨hstays.trans hsr, fun hkeeps hmatches => ?_⟩
      obtain ⟨_, _, heq, hfresh, hrecorded, hmatches₁⟩ := htd (hkeeps.of_grows hsr.grows) hmatches
      cases heq
      obtain ⟨htyped, hdistinct, hnew, hmatches'⟩ := htr hkeeps hmatches₁
      -- Later parameters were new beside this one, so they have other names.
      have hother : ∀ q ∈ rest, q.name ≠ p.name ∧ names.lookup q.name = none := by
        intro q hq
        have hlookup := hnew q hq
        rw [List.lookup_cons] at hlookup
        cases heq : q.name == p.name with
        | true =>
          rw [heq] at hlookup
          cases hlookup
        | false =>
          rw [heq] at hlookup
          exact ⟨by simpa using heq, hlookup⟩
      refine ⟨.cons ⟨_, hrecorded, rfl, rfl, rfl, rfl⟩ htyped, ?_, ?_, ?_⟩
      · rw [List.map_cons, List.nodup_cons]
        refine ⟨fun hmem => ?_, hdistinct⟩
        obtain ⟨q, hq, hname⟩ := List.mem_map.mp hmem
        exact (hother q hq).1 hname
      · exact List.forall_mem_cons.mpr ⟨hfresh, fun q hq => (hother q hq).2⟩
      · simpa [parameterNames] using hmatches'

/-! ## §3 Functions -/

/-- The return type of a function does not depend on what has been checked before. -/
theorem returnType_eq_ok {f : Function} {τ : Ty} (h : returnType f s = .ok τ s') :
    s' = s ∧ ∀ s₁, returnType f s₁ = .ok τ s₁ := by
  unfold returnType at h ⊢
  cases hreturns : f.returns with
  | none =>
    rw [hreturns] at h
    cases h
    exact ⟨rfl, fun _ => rfl⟩
  | some name =>
    simp only [hreturns, resolveType] at h ⊢
    cases hname : Ty.ofName? name with
    | none =>
      rw [hname] at h
      cases h
    | some σ =>
      rw [hname] at h
      cases h
      exact ⟨rfl, fun _ => rfl⟩

/-- The types of a function are read, then it is defined, and then its block is checked with no local name taken. -/
theorem function_eq_ok {f : Function} {u : Unit} (h : function f s = .ok u s') : ∃ types returns scope,
    types.length = f.parameters.length ∧ (∀ s₁, returnType f s₁ = .ok returns s₁) ∧
      s.scope.defineFunction? ⟨f.name, mangle f.name, types, returns⟩ = some scope ∧
      inScope (do parameters f.parameters types; statements f.body) { s with
        scope := scope
        table := s.table.setFunction f.node.id ⟨f.name, mangle f.name, types, returns⟩
        returns := returns
        locals := .empty } = .ok u s' := by
  unfold function at h
  obtain ⟨types, s₁, htypes, h₁⟩ := bind_eq_ok.mp h
  obtain ⟨rfl, hlength⟩ := length_of_parameterTypes htypes
  obtain ⟨returns, s₂, hreturns, h₂⟩ := bind_eq_ok.mp h₁
  obtain ⟨rfl, hanywhere⟩ := returnType_eq_ok hreturns
  obtain ⟨_, s₃, hdefine, h₃⟩ := bind_eq_ok.mp h₂
  obtain ⟨scope, hscope, rfl⟩ := defineFunction_eq_ok.mp hdefine
  obtain ⟨_, s₄, henter, hblock⟩ := bind_eq_ok.mp h₃
  cases henter
  exact ⟨types, returns, scope, hlength, hanywhere, hscope, hblock⟩

/-- The block of a function: its parameters, then its body. -/
theorem checks_of_functionBlock {f : Function} (names : Names) {types : List Ty} {u : Unit}
    (hlength : types.length = f.parameters.length)
    (h : inScope (do parameters f.parameters types; statements f.body) s = .ok u s') :
    s.Proceeds ((f.parameters.map fun p => p.node.id) ++ blockIds f.body) s' ∧
      (t.Keeps s'.table → s.scope.Matches t F [names] → f.bindings names ⊆ B →
        List.Forall₂ (ParameterTyped t) f.parameters types ∧ (f.parameters.map Parameter.name).Nodup ∧
          ChecksAll t B F s.returns [parameterNames f.parameters, names] f.body) := by
  apply proceeds_of_inScope h
  intro s₁ hrun
  obtain ⟨_, s₂, hparameters, hbody⟩ := bind_eq_ok.mp hrun
  obtain ⟨hsp, htp⟩ := parametersTyped_of_parameters (t := t) (F := F) [] [names]
    (List.cons_ne_nil _ _) hlength hparameters
  obtain ⟨hsb, htb⟩ := checks_of_statements (t := t) (B := B) (F := F) (Γ := [parameterNames f.parameters, names])
    f.body hsp.inner hbody
  refine ⟨hsp.trans hsb, fun hkeeps hmatches hbind => ?_⟩
  obtain ⟨htyped, hdistinct, -, hmatches₂⟩ := htp (hkeeps.of_grows hsb.grows) hmatches
  rw [List.append_nil] at hmatches₂
  exact ⟨htyped, hdistinct, hsp.returns ▸ htb hkeeps hmatches₂ hbind⟩

theorem functionTyped_of_function {f : Function} (names : Names) {u : Unit} (hinner : s.scope.inner = [])
    (hf : f ∈ F) (h : function f s = .ok u s') : s.StaysOutside f.ids s' ∧
      s.scope.root.funs.lookup f.key = none ∧
      s'.scope.root.funs.map Prod.fst = f.key :: s.scope.root.funs.map Prod.fst ∧
      (t.Keeps s'.table → s.scope.Matches t F [names] → f.bindings names ⊆ B →
        (∃ info, FunctionTyped t B F names f info ∧ ∀ s₁, returnType f s₁ = .ok info.returns s₁) ∧
          s'.scope.Matches t F [names]) := by
  obtain ⟨types, returns, scope, hlength, hanywhere, hscope, hblock⟩ := function_eq_ok h
  obtain ⟨hfresh, rfl⟩ := Scope.defineFunction?_root hinner hscope
  obtain ⟨hproceeds, hchecks⟩ := checks_of_functionBlock (t := t) (B := B) (F := F) names hlength hblock
  have hkey : f.key = (f.name, types.length) := by rw [Function.key, Function.arity, hlength]
  have hstays := (Grows.setFunction s.table f.node.id ⟨f.name, mangle f.name, types, returns⟩).trans hproceeds.grows
  refine ⟨⟨by rw [hproceeds.scope], hstays⟩, hkey ▸ hfresh, by rw [hproceeds.scope, hkey]; rfl,
    fun hkeeps hmatches hbind => ?_⟩
  have hrecorded := (hkeeps.of_grows hproceeds.grows).findFunction?
  -- The function itself can be called from its own body.
  have hmatches₃ : Scope.Matches t F ⟨⟨s.scope.root.vars, ((f.name, types.length),
      ⟨f.name, mangle f.name, types, returns⟩) :: s.scope.root.funs⟩, []⟩ [names] := by
    refine Scope.matches_root rfl hmatches.names_of_root ?_
    intro name arity g hfind
    rw [Frame.findFunction?, List.lookup_cons] at hfind
    cases heq : (name, arity) == (f.name, types.length) with
    | true =>
      rw [heq, Option.some.injEq] at hfind
      rw [beq_iff_eq, Prod.mk.injEq] at heq
      obtain ⟨rfl, rfl⟩ := heq
      subst hfind
      exact ⟨Or.inr ⟨f, hf, rfl, hlength.symm, hrecorded⟩, rfl⟩
    | false =>
      rw [heq] at hfind
      exact hmatches.root hfind
  obtain ⟨hparameters, hdistinct, hbody⟩ := hchecks hkeeps hmatches₃ hbind
  exact ⟨⟨_, ⟨hrecorded, hparameters, hdistinct, hbody⟩, hanywhere⟩, hproceeds.scope ▸ hmatches₃⟩

theorem functionsTyped_of_functions {gs : List Function} (names : Names) {u : Unit} (hinner : s.scope.inner = [])
    (hgs : gs ⊆ F) (hkeys : (s.scope.root.funs.map Prod.fst).Nodup) (h : functions gs s = .ok u s') :
    s.StaysOutside (gs.flatMap Function.ids) s' ∧
      ((gs.map Function.key).reverse ++ s.scope.root.funs.map Prod.fst).Nodup ∧
      (t.Keeps s'.table → s.scope.Matches t F [names] → gs.flatMap (Function.bindings names) ⊆ B →
        ∀ f ∈ gs, ∃ info, FunctionTyped t B F names f info ∧ ∀ s₁, returnType f s₁ = .ok info.returns s₁) := by
  induction gs generalizing s with
  | nil =>
    cases h
    exact ⟨.refl hinner, hkeys, fun _ _ _ => List.forall_mem_nil _⟩
  | cons f rest ih =>
    rw [functions] at h
    obtain ⟨_, s₁, hfunction, hrest⟩ := bind_eq_ok.mp h
    obtain ⟨hf, hsubset⟩ := List.cons_subset.mp hgs
    obtain ⟨hsf, hfresh, hfuns, htf⟩ := functionTyped_of_function (t := t) (B := B) names hinner hf hfunction
    -- The name and arity were new in the root, so the keys stay distinct.
    have hkeys₁ : (s₁.scope.root.funs.map Prod.fst).Nodup := by
      rw [hfuns, List.nodup_cons]
      exact ⟨lookup_eq_none_iff_notMem.mp hfresh, hkeys⟩
    obtain ⟨hsr, hnodup, htr⟩ := ih hsf.inner hsubset hkeys₁ hrest
    rw [hfuns] at hnodup
    refine ⟨hsf.trans hsr, by simpa using hnodup, fun hkeeps hmatches hbind => ?_⟩
    obtain ⟨hbf, hbr⟩ := List.append_subset.mp hbind
    obtain ⟨htyped, hmatches₁⟩ := htf (hkeeps.of_grows hsr.grows) hmatches hbf
    exact List.forall_mem_cons.mpr ⟨htyped, htr hkeeps hmatches₁ hbr⟩

end Checker

/-! ## §4 Programs -/

open Checker

/-- Before a program is checked, the builtin alone is known. -/
theorem matches_withFunctions (t : SideTable) (F : List Function) :
    (CheckerState.withFunctions builtins).scope.Matches t F [[]] := by
  apply Scope.matches_root rfl .nil
  intro name arity f hfind
  change List.lookup (name, arity) [(("print", 1), Builtin.print.info)] = some f at hfind
  -- One builtin: what is found is that one.
  rw [List.lookup_cons] at hfind
  cases heq : (name, arity) == ("print", 1) with
  | true =>
    rw [heq, Option.some.injEq] at hfind
    rw [beq_iff_eq, Prod.mk.injEq] at heq
    obtain ⟨rfl, rfl⟩ := heq
    exact ⟨Or.inl ⟨rfl, rfl, hfind.symm⟩, hfind ▸ rfl⟩
  | false =>
    rw [heq] at hfind
    cases hfind

/-- A scope without blocks, whose functions are known by their names and arities. -/
structure Scope.Rooted (scope : Scope) : Prop where
  inner : scope.inner = []
  nodup : (scope.root.funs.map Prod.fst).Nodup
  arity : ∀ x ∈ scope.root.funs, x.2.arity = x.1.2

theorem Scope.Rooted.define {scope : Scope} (h : scope.Rooted) (f : FunctionInfo) :
    ((scope.defineFunction? f).getD scope).Rooted := by
  cases hdefine : scope.defineFunction? f with
  | none => exact h
  | some scope' =>
    obtain ⟨hfresh, rfl⟩ := Scope.defineFunction?_root h.inner hdefine
    have hnodup := List.nodup_cons.mpr ⟨lookup_eq_none_iff_notMem.mp hfresh, h.nodup⟩
    exact ⟨rfl, hnodup, List.forall_mem_cons.mpr ⟨rfl, h.arity⟩⟩

/-- Before a program is checked, the builtins alone are known, whatever they are. -/
theorem rooted_withFunctions (bs : List FunctionInfo) : (CheckerState.withFunctions bs).scope.Rooted := by
  have hfold : ∀ (scope : Scope), scope.Rooted →
      (bs.foldl (fun scope f => (scope.defineFunction? f).getD scope) scope).Rooted := by
    induction bs with
    | nil => exact fun scope h => h
    | cons f rest ih => exact fun scope h => ih _ (h.define f)
  exact hfold _ ⟨rfl, List.nodup_nil, List.forall_mem_nil _⟩

/-- More functions to call do no harm. -/
theorem Scope.Matches.mono {t : SideTable} {F gs : List Function} {scope : Scope} {Γ : Context}
    (h : scope.Matches t F Γ) (hsubset : F ⊆ gs) : scope.Matches t gs Γ := by
  refine ⟨h.frames, h.inner, fun hfind => ?_⟩
  obtain ⟨hbuiltin | ⟨g, hg, hcallee⟩, harity⟩ := h.root hfind
  · exact ⟨Or.inl hbuiltin, harity⟩
  · exact ⟨Or.inr ⟨g, hsubset hg, hcallee⟩, harity⟩

/-- The entry point is a function of the program that returns an integer. -/
theorem entryPoint_eq_ok {p : Program} {s s' : CheckerState} {u : Unit} (h : entryPoint p s = .ok u s') :
    s' = s ∧ ∃ main ∈ p.functions, main.isEntry = true ∧ ∀ s₁, returnType main s₁ = .ok .integer s₁ := by
  unfold entryPoint at h
  -- The first function that looks like an entry point is taken.
  cases hfind : p.functions.find? Function.isEntry with
  | none =>
    rw [hfind] at h
    cases h
  | some main =>
    simp only [hfind] at h
    obtain ⟨returns, s₁, hreturns, h₁⟩ := bind_eq_ok.mp h
    obtain ⟨rfl, hanywhere⟩ := returnType_eq_ok hreturns
    split_ifs at h₁ with hinteger
    · cases h₁
      subst hinteger
      exact ⟨rfl, main, List.mem_of_find?_eq_some hfind, List.find?_some hfind, hanywhere⟩
    · cases h₁

variable {p : Program} {t : SideTable}

/-- Checking a program is checking its globals and then its functions, one of which is the entry point. -/
theorem runs_of_check {bs : List FunctionInfo} (hcheck : check bs p = .ok t) : ∃ s₁ s₂,
    globals p.globals (.withFunctions bs) = .ok () s₁ ∧ functions p.functions s₁ = .ok () s₂ ∧ s₂.table = t ∧
      ∃ main ∈ p.functions, main.isEntry = true ∧ ∀ s, returnType main s = .ok .integer s := by
  unfold check at hcheck
  cases hrun : (Checker.program p).run (CheckerState.withFunctions bs) with
  | error e s => simp [hrun] at hcheck
  | ok u s₂ =>
    simp only [hrun, Except.ok.injEq] at hcheck
    obtain ⟨_, s₀, hentry, h₁⟩ := bind_eq_ok.mp hrun
    obtain ⟨_, s₁, hglobals, hfunctions⟩ := bind_eq_ok.mp h₁
    obtain ⟨rfl, hmain⟩ := entryPoint_eq_ok hentry
    exact ⟨s₁, s₂, hglobals, hfunctions, hcheck, hmain⟩

/-- The functions of an accepted program are checked where the builtin is defined and the globals obey the typing
rules; the final table keeps every entry if the ids are distinct. -/
theorem functions_of_check (hcheck : check builtins p = .ok t) (hids : p.ids.Nodup) : ∃ s₁ s₂,
    functions p.functions s₁ = .ok () s₂ ∧ s₂.table = t ∧ t.Keeps t ∧ GlobalsTyped t p.bindings [] [] p.globals ∧
      s₁.scope.inner = [] ∧ s₁.scope.root.funs.map Prod.fst = [("print", 1)] ∧
      s₁.scope.Matches t [] [globalNames p.globals] := by
  obtain ⟨s₁, s₂, hglobals, hfunctions, rfl, -⟩ := runs_of_check hcheck
  obtain ⟨hsg, hfuns, htg⟩ := globalsTyped_of_globals (t := s₂.table) (B := p.bindings) (F := []) [] rfl hglobals
  have hkeys : s₁.scope.root.funs.map Prod.fst = [("print", 1)] := by
    rw [hfuns]
    rfl
  obtain ⟨hsf, -, -⟩ := functionsTyped_of_functions (t := s₂.table) (B := p.bindings) (F := p.functions)
    (globalNames p.globals) hsg.inner (List.Subset.refl _) (by rw [hkeys]; decide) hfunctions
  -- Entries are made under the ids of the program, which are distinct, so the final table has all of them.
  have hkeeps : s₂.table.Keeps s₂.table := keeps_self (hsg.grows.trans hsf.grows) hids
  obtain ⟨hbg, -⟩ := List.append_subset.mp (List.Subset.refl p.bindings)
  obtain ⟨hglobalsTyped, hmatches⟩ := htg (hkeeps.of_grows hsf.grows) (matches_withFunctions _ _) hbg
  rw [List.append_nil] at hmatches
  exact ⟨s₁, s₂, hfunctions, rfl, hkeeps, hglobalsTyped, hsg.inner, hkeys, hmatches⟩

/-- An accepted program whose ids are distinct obeys the typing rules of its side table. -/
theorem programTyped_of_check (hcheck : check builtins p = .ok t) (hids : p.ids.Nodup) : ProgramTyped t p := by
  obtain ⟨-, -, -, -, -, main, hmain, hisEntry, hinteger⟩ := runs_of_check hcheck
  obtain ⟨s₁, s₂, hfunctions, rfl, hkeeps, hglobalsTyped, hinner, hkeys, hmatches⟩ := functions_of_check hcheck hids
  obtain ⟨-, hnodup, htf⟩ := functionsTyped_of_functions (t := s₂.table) (B := p.bindings) (F := p.functions)
    (globalNames p.globals) hinner (List.Subset.refl _) (by rw [hkeys]; decide) hfunctions
  obtain ⟨-, hbf⟩ := List.append_subset.mp (List.Subset.refl p.bindings)
  have htyped := htf hkeeps (hmatches.mono (List.nil_subset _)) hbf
  refine ⟨hglobalsTyped, fun f hf => ?_, ?_, main, hmain, hisEntry, ?_⟩
  · obtain ⟨info, hinfo, -⟩ := htyped f hf
    exact ⟨info, hinfo⟩
  · rw [hkeys] at hnodup
    -- Functions are in the root the latest first, on top of the builtin.
    have hperm : ((p.functions.map Function.key).reverse ++ [("print", 1)]).Perm
        (("print", 1) :: p.functions.map Function.key) :=
      (List.perm_append_singleton _ _).trans ((List.reverse_perm _).cons _)
    exact hperm.nodup_iff.mp hnodup
  · obtain ⟨info, hinfo, hreturns⟩ := htyped main hmain
    -- The entry point has one return type, wherever it is computed.
    have heq := (hreturns s₂).symm.trans (hinteger s₂)
    rw [EStateM.Result.ok.injEq] at heq
    exact ⟨info, hinfo.recorded, heq.1⟩

end BlockLang
