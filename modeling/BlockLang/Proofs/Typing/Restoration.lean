import BlockLang.Proofs.Typing.Confinement
import BlockLang.Proofs.Typing.Walk
import Mathlib

/-!
# One checker for many programs

A checker can be kept and given one program after the other, also after it has refused one.  Every check leaves the
root frame with what it had, and with the globals and functions that the check came to define; nothing else that an
earlier check leaves behind has an influence on a later one.

## Main definitions

- `Function.signature?`: what is known about a function before its body is looked at.
- `Frame.Gains`: the definitions of a frame are those of another one and some more.
- `Checker.Ends`: where a check ends, and what it has come to define there.
- `CheckerState.analyzer`: a checker after some programs.

## Main statement

- `analyzer_reusable`: what a check does to a checker that has checked other programs, and what it does not see of them.
-/

namespace BlockLang

open Stateful

/-! ## §1 Signatures -/

/-- The return type of a function, if it is known. -/
def Function.returnType? (f : Function) : Option Ty :=
  match f.returns with
  | some name => Ty.ofName? name
  | none => some (if f.isEntry then .integer else .nil)

/-- What is known about a function before its body is looked at, if the types in its head are known. -/
def Function.signature? (f : Function) : Option FunctionInfo := do
  let types ← f.parameters.mapM fun p => Ty.ofName? p.type
  let returns ← f.returnType?
  return ⟨f.name, mangle f.name, types, returns⟩

/-- The signature of a function is accepted in a frame: its types are known, and its name and arity are not taken. -/
def Function.Fits (f : Function) (frame : StaticFrame) : Prop :=
  ∃ info, f.signature? = some info ∧ frame.findFunction? info.name info.arity = none

namespace Checker

variable {α β : Type} {s s' t u : CheckerState} {e : TypingError}

/-- In every state the checker yields the value if there is one, and fails if there is none; it changes nothing. -/
def Yields (value : Option α) (x : Checker α) : Prop :=
  match value with
  | some a => ∀ s, x s = .ok a s
  | none => ∀ s, ∃ e, x s = .error e s

namespace Yields

theorem pure (a : α) : Yields (some a) (pure a : Checker α) :=
  fun _ => rfl

/-- Where there is a value, the checker goes on with it. -/
theorem bind_some {a : α} {x : Checker α} (hx : Yields (some a) x) (f : α → Checker β) : (x >>= f) = f a :=
  funext fun s => bind_of_ok (hx s)

/-- Where there is none, it does not go on. -/
theorem bind_none {x : Checker α} (hx : Yields none x) (f : α → Checker β) (s : CheckerState) :
    ∃ e, (x >>= f) s = .error e s := by
  obtain ⟨e, hx⟩ := hx s
  exact ⟨e, bind_of_error hx⟩

theorem bind {o : Option α} {g : α → Option β} {x : Checker α} {f : α → Checker β} (hx : Yields o x)
    (hf : ∀ a, Yields (g a) (f a)) : Yields (o >>= g) (x >>= f) := by
  cases o with
  | none => exact hx.bind_none f
  | some a =>
    rw [hx.bind_some f]
    exact hf a

theorem resolveType (name : String) (offset : Nat) : Yields (Ty.ofName? name) (Checker.resolveType name offset) := by
  unfold Checker.resolveType
  cases Ty.ofName? name with
  | none => exact fun _ => ⟨_, rfl⟩
  | some τ => exact pure τ

theorem parameterTypes (ps : List Parameter) :
    Yields (ps.mapM fun p => Ty.ofName? p.type) (Checker.parameterTypes ps) := by
  induction ps with
  | nil => exact pure []
  | cons p rest ih =>
    rw [List.mapM_cons]
    exact bind (resolveType p.type p.node.offset) fun τ => bind ih fun τs => pure (τ :: τs)

theorem returnType (f : Function) : Yields f.returnType? (Checker.returnType f) := by
  unfold Function.returnType? Checker.returnType
  cases f.returns with
  | none => exact pure _
  | some name => exact resolveType name f.node.offset

end Yields

/-- What the check of a function does once its signature is known. -/
def define (f : Function) (info : FunctionInfo) : Checker Unit := do
  defineFunction f.node info
  enterFunction info.returns
  inScope do
    parameters f.parameters info.parameters
    statements f.body

theorem function_of_signature {f : Function} {info : FunctionInfo} (h : f.signature? = some info) :
    function f = define f info := by
  obtain ⟨types, htypes, h₁⟩ := Option.bind_eq_some_iff.mp h
  obtain ⟨returns, hreturns, hinfo⟩ := Option.bind_eq_some_iff.mp h₁
  cases hinfo
  have hparameters := Yields.parameterTypes f.parameters
  have hreturn := Yields.returnType f
  rw [htypes] at hparameters
  rw [hreturns] at hreturn
  unfold function
  rw [hparameters.bind_some, hreturn.bind_some]
  rfl

theorem function_of_no_signature {f : Function} (h : f.signature? = none) (s : CheckerState) :
    ∃ e, function f s = .error e s := by
  have hparameters := Yields.parameterTypes f.parameters
  have hreturns := Yields.returnType f
  unfold Function.signature? at h
  unfold function
  cases htypes : f.parameters.mapM fun p => Ty.ofName? p.type with
  | none =>
    rw [htypes] at hparameters
    exact hparameters.bind_none _ s
  | some types =>
    rw [htypes] at hparameters h
    rw [hparameters.bind_some]
    cases hreturn : f.returnType? with
    | none =>
      rw [hreturn] at hreturns
      exact hreturns.bind_none _ s
    | some returns =>
      rw [hreturn] at h
      cases h

end Checker

/-! ## §2 What frames and tables gain -/

/-- The definitions of a frame are those of the old one, and those of the given variables and functions. -/
structure Frame.Gains (old : StaticFrame) (vars : List VariableInfo) (funs : List FunctionInfo) (new : StaticFrame) :
    Prop where
  variable_iff : ∀ name v, new.findVariable? name = some v ↔
    old.findVariable? name = some v ∨ (v ∈ vars ∧ v.name = name)
  function_iff : ∀ name arity f, new.findFunction? name arity = some f ↔
    old.findFunction? name arity = some f ∨ (f ∈ funs ∧ (f.name, f.arity) = (name, arity))

/-- One more entry under a key that was not taken. -/
theorem eq_some_iff_of_insert {K X : Type} [DecidableEq K] {old new : K → Option X} (keyOf : X → K) {x : X}
    (h : ∀ k, new k = if k = keyOf x then some x else old k) (hnew : old (keyOf x) = none) (k : K) (y : X) :
    new k = some y ↔ old k = some y ∨ (y ∈ [x] ∧ keyOf y = k) := by
  rw [h k, List.mem_singleton]
  split
  next hk =>
    subst hk
    rw [hnew]
    constructor
    · intro hxy
      cases hxy
      exact .inr ⟨rfl, rfl⟩
    · rintro (hold | ⟨rfl, -⟩)
      · cases hold
      · rfl
  next hk =>
    constructor
    · exact .inl
    · rintro (hold | ⟨rfl, hkey⟩)
      · exact hold
      · exact absurd hkey.symm hk

namespace Frame.Gains

variable {a b c : StaticFrame} {vs ws : List VariableInfo} {fs gs : List FunctionInfo}

theorem refl (a : StaticFrame) : Frame.Gains a [] [] a :=
  ⟨by simp, by simp⟩

theorem trans (h : Frame.Gains a vs fs b) (h' : Frame.Gains b ws gs c) : Frame.Gains a (vs ++ ws) (fs ++ gs) c where
  variable_iff name v := by
    rw [h'.variable_iff, h.variable_iff, List.mem_append, or_and_right, or_assoc]
  function_iff name arity f := by
    rw [h'.function_iff, h.function_iff, List.mem_append, or_and_right, or_assoc]

theorem defineVariable? {v : VariableInfo} (h : Frame.defineVariable? a v.name v = some b) :
    Frame.Gains a [v] [] b where
  variable_iff :=
    eq_some_iff_of_insert VariableInfo.name (Frame.findVariable?_of_defineVariable? h)
      (Frame.defineVariable?_eq_some.mp h).1
  function_iff name arity f := by
    rw [Frame.findFunction?_of_defineVariable? h]
    simp

theorem defineFunction? {f : FunctionInfo} (h : Frame.defineFunction? a f.name f.arity f = some b) :
    Frame.Gains a [] [f] b where
  variable_iff name v := by
    rw [Frame.findVariable?_of_defineFunction? h]
    simp
  function_iff name arity := by
    have hnew : a.findFunction? f.name f.arity = none := (Frame.defineFunction?_eq_some.mp h).1
    have hinsert (k : String × Nat) : b.findFunction? k.1 k.2 =
        if k = (f.name, f.arity) then some f else a.findFunction? k.1 k.2 :=
      Frame.findFunction?_of_defineFunction? h k.1 k.2
    exact eq_some_iff_of_insert (fun f : FunctionInfo => (f.name, f.arity)) hinsert hnew (name, arity)

end Frame.Gains

/-- All entries of the first table stand in the second one. -/
structure SideTable.Within (t u : SideTable) : Prop where
  types : t.types ⊆ u.types
  vars : t.vars ⊆ u.vars
  funs : t.funs ⊆ u.funs

theorem SideTable.Within.over (t base : SideTable) : base.Within (t.over base) :=
  ⟨List.subset_append_right _ _, List.subset_append_right _ _, List.subset_append_right _ _⟩

/-- What a table says of a global that is defined as the given variable: the type is the one that is written, or else
that of the initial value. -/
structure Global.Recorded (t : SideTable) (g : Global) (v : VariableInfo) : Prop where
  info : v = ⟨g.name, mangle g.name, v.type, g.mutable, g.isList⟩
  entry : (g.node.id, v) ∈ t.vars
  declared : ∀ name, g.type = some name → Ty.ofName? name = some v.type
  inferred : g.type = none → ∀ e, g.value = some e → (e.id, v.type) ∈ t.types

theorem Global.Recorded.mono {t u : SideTable} {g : Global} {v : VariableInfo} (h : g.Recorded t v)
    (hwithin : t.Within u) : g.Recorded u v :=
  ⟨h.info, hwithin.vars h.entry, h.declared, fun htype e he => hwithin.types (h.inferred htype e he)⟩

/-- What a table says of a function whose signature is accepted. -/
structure Function.Recorded (t : SideTable) (f : Function) (info : FunctionInfo) : Prop where
  signature : f.signature? = some info
  entry : (f.node.id, info) ∈ t.funs

theorem Function.Recorded.mono {t u : SideTable} {f : Function} {info : FunctionInfo} (h : f.Recorded t info)
    (hwithin : t.Within u) : f.Recorded u info :=
  ⟨h.signature, hwithin.funs h.entry⟩

namespace Checker

variable {α : Type} {s s' t u : CheckerState} {e : TypingError}

/-! ## §3 Steps of a check -/

/-- A confined checker loses no entry, however it ends. -/
theorem within_of_confined {γ : Type} {view : CheckerState → γ} {x : Checker α}
    {outcome : EStateM.Result TypingError CheckerState α}
    (hx : ∀ base, Confined (CheckerState.Alike base Anyhow) view x) (h : x s = outcome) :
    s.table.Within (state outcome).table := by
  have halike : CheckerState.Alike s.table Anyhow s { s with table := .empty } :=
    ⟨⟨.refl _, rfl⟩, rfl, trivial⟩
  rw [← h, ((hx s.table).agrees _ _ halike).state.table]
  exact .over _ _

/-- A checker that leaves the scope as it is does so however it ends. -/
theorem scope_of_neutral {x : Checker α} {outcome : EStateM.Result TypingError CheckerState α}
    (hx : Neutral .empty Anyhow x) (h : x s = outcome) : (state outcome).scope = s.scope := by
  rw [← h]
  exact hx.keeps s

/-- A checked expression has an entry for its type. -/
theorem mem_types_of_expression {e : Expr} {τ : Ty} (h : expression e s = .ok τ s') : (e.id, τ) ∈ s'.table.types := by
  cases e with
  | literal node value =>
    obtain ⟨rfl, rfl⟩ := expression_literal_eq_ok h
    exact List.mem_cons_self
  | group node inner =>
    obtain ⟨-, s₁, -, rfl⟩ := expression_group_eq_ok h
    exact List.mem_cons_self
  | binary node op left right =>
    obtain ⟨-, -, -, s₁, -, -, -, rfl⟩ := expression_binary_eq_ok h
    exact List.mem_cons_self
  | «variable» node name =>
    obtain ⟨v, -, -, rfl⟩ := expression_variable_eq_ok h
    exact List.mem_cons_self
  | element node name index =>
    obtain ⟨v, s₁, -, -, -, rfl, rfl⟩ := expression_element_eq_ok h
    exact List.mem_cons_self
  | call node name arguments =>
    obtain ⟨-, f, s₁, -, -, -, rfl, rfl⟩ := expression_call_eq_ok h
    exact List.mem_cons_self
  | list node elements =>
    obtain ⟨-, s₁, -, rfl, rfl⟩ := expression_list_eq_ok h
    exact List.mem_cons_self

/-- A type that is written for a global is its type; without one the initial value has an entry for that type. -/
theorem declared_or_inferred {g : Global} {declared : Option Ty} {τ : Ty} (h : globalType g declared s = .ok τ s') :
    (∀ target, declared = some target → τ = target) ∧
      (declared = none → ∀ e, g.value = some e → (e.id, τ) ∈ s'.table.types) := by
  obtain ⟨hvalue, rfl, rfl⟩ | ⟨node, items, s₁, hvalue, rfl, -, rfl⟩ | ⟨e, σ, hvalue, -, rfl, -, hexpression⟩ :=
    globalType_cases h
  · exact ⟨fun _ htarget => Option.some.inj htarget, nofun⟩
  · refine ⟨fun _ htarget => by rw [htarget]; rfl, fun _ e he => ?_⟩
    obtain rfl : Expr.list node items = e := Option.some.inj (hvalue.symm.trans he)
    exact List.mem_cons_self
  · refine ⟨fun _ htarget => by rw [htarget]; rfl, fun hnone e' he => ?_⟩
    obtain rfl : e = e' := Option.some.inj (hvalue.symm.trans he)
    rw [hnone]
    exact mem_types_of_expression hexpression

/-- The type that is written, if any, is the one that its name denotes. -/
theorem ofName?_of_resolveType? {name : Option String} {offset : Nat} {declared : Option Ty}
    (h : resolveType? name offset s = .ok declared s') :
    (name = none → declared = none) ∧ ∀ n, name = some n → ∃ τ, Ty.ofName? n = some τ ∧ declared = some τ := by
  cases name with
  | none =>
    cases h
    exact ⟨fun _ => rfl, nofun⟩
  | some n =>
    refine ⟨nofun, ?_⟩
    rintro _ ⟨⟩
    obtain ⟨τ, s₁, hresolve, hpure⟩ := bind_eq_ok.mp h
    cases hpure
    have hyields := Yields.resolveType n offset
    cases hname : Ty.ofName? n with
    | none =>
      rw [hname] at hyields
      obtain ⟨e, hfails⟩ := hyields s
      rw [hfails] at hresolve
      cases hresolve
    | some σ =>
      rw [hname] at hyields
      rw [hyields s] at hresolve
      cases hresolve
      exact ⟨τ, rfl, rfl⟩

/-- A global that is accepted is defined in the root frame. -/
theorem gains_of_global {g : Global} {a : Unit} (hinner : s.scope.inner = []) (h : global g s = .ok a s') :
    ∃ v, g.Recorded s'.table v ∧ s.scope.root.Gains [v] [] s'.scope.root ∧ s'.scope.inner = [] := by
  obtain ⟨declared, τ, s₁, scope, hresolve, htype, hdefine, rfl⟩ := global_eq_ok h
  have hscope : s₁.scope = s.scope := scope_of_neutral (confined_globalType g declared) htype
  rw [hscope] at hdefine
  obtain ⟨root, hroot, rfl⟩ := Option.map_eq_some_iff.mp ((Scope.updateInnermost?_root hinner _).symm.trans hdefine)
  obtain ⟨hnone, hsome⟩ := ofName?_of_resolveType? hresolve
  obtain ⟨hdeclared, hinferred⟩ := declared_or_inferred htype
  refine ⟨_, ⟨rfl, List.mem_cons_self, fun name hname => ?_, fun htype => hinferred (hnone htype)⟩,
    .defineVariable? hroot, rfl⟩
  obtain ⟨σ, hσ, hdec⟩ := hsome name hname
  rw [hσ, hdeclared σ hdec]

/-- A global that is refused changes no frame. -/
theorem scope_of_global_error {g : Global} (h : global g s = .error e s') : s'.scope = s.scope := by
  obtain hresolve | ⟨declared, s₁, hresolve, h₁⟩ := bind_eq_error.mp h
  · exact scope_of_neutral (confined_resolveType? _ _) hresolve
  · have hscope₁ : s₁.scope = s.scope := scope_of_neutral (confined_resolveType? _ _) hresolve
    obtain htype | ⟨τ, s₂, htype, hdefine⟩ := bind_eq_error.mp h₁
    · exact (scope_of_neutral (confined_globalType g declared) htype).trans hscope₁
    · have hscope₂ : s₂.scope = s₁.scope := scope_of_neutral (confined_globalType g declared) htype
      unfold defineVariable at hdefine
      rw [get_bind] at hdefine
      cases hnew : s₂.scope.defineVariable? ⟨g.name, mangle g.name, τ, g.mutable, g.isList⟩ with
      | none =>
        rw [hnew] at hdefine
        cases hdefine
        exact hscope₂.trans hscope₁
      | some scope =>
        rw [hnew] at hdefine
        cases hdefine

theorem defineFunction_eq_error {node : Node} {info : FunctionInfo} (h : s.scope.defineFunction? info = none) :
    defineFunction node info s = .error (.alreadyDefined info.name node.offset) s := by
  unfold defineFunction
  rw [get_bind, h]
  rfl

/-- A function whose signature is not accepted changes nothing; any other one is defined in the root frame, whatever
becomes of its body. -/
theorem gains_of_function (f : Function) (hinner : s.scope.inner = []) :
    (¬ f.Fits s.scope.root ∧ ∃ e, function f s = .error e s) ∨
      f.Fits s.scope.root ∧ ∃ info, f.Recorded (state (function f s)).table info ∧
        s.scope.root.Gains [] [info] (state (function f s)).scope.root ∧ (state (function f s)).scope.inner = [] := by
  cases hsignature : f.signature? with
  | none =>
    refine .inl ⟨?_, function_of_no_signature hsignature s⟩
    rintro ⟨info, hinfo, -⟩
    cases hsignature.symm.trans hinfo
  | some info =>
    rw [function_of_signature hsignature]
    have hroot : s.scope.defineFunction? info = _ := Scope.updateInnermost?_root hinner _
    cases hdefine : s.scope.root.defineFunction? info.name info.arity info with
    | none =>
      rw [hdefine] at hroot
      refine .inl ⟨?_, _, bind_of_error (defineFunction_eq_error hroot)⟩
      rintro ⟨info', hinfo, hfree⟩
      obtain rfl : info = info' := Option.some.inj (hsignature.symm.trans hinfo)
      rw [Frame.defineFunction?_eq_none_iff, hfree] at hdefine
      cases hdefine
    | some root =>
      rw [hdefine] at hroot
      have hfree : s.scope.root.findFunction? info.name info.arity = none :=
        (Frame.defineFunction?_eq_some.mp hdefine).1
      -- The function is defined before its body is checked, so it is recorded even if the body is refused.
      have hblock : ∀ base, Neutral base Anyhow (enterFunction info.returns >>= fun _ => inScope do
          parameters f.parameters info.parameters
          statements f.body) :=
        fun base => confined_enterFunction info.returns (confined_functionBlock f info.parameters)
      have hdefined : defineFunction f.node info s = .ok () _ := defineFunction_eq_ok.mpr ⟨_, hroot, rfl⟩
      refine .inr ⟨⟨info, hsignature, hfree⟩, info, ?_⟩
      have hrest : define f info s = _ := bind_of_ok hdefined
      rw [hrest, scope_of_neutral (hblock .empty) rfl]
      exact ⟨⟨hsignature, (within_of_confined hblock rfl).funs List.mem_cons_self⟩, .defineFunction? hdefine, rfl⟩

/-! ## §4 Where a check ends -/

theorem globals_eq_forM (gs : List Global) : globals gs = gs.forM global := by
  induction gs with
  | nil => rfl
  | cons g rest ih =>
    rw [globals, ih]
    rfl

theorem functions_eq_forM (fs : List Function) : functions fs = fs.forM function := by
  induction fs with
  | nil => rfl
  | cons f rest ih =>
    rw [functions, ih]
    rfl

/-- Globals that are accepted are defined in the root frame. -/
theorem gains_of_globals {gs : List Global} {a : Unit} (hinner : s.scope.inner = []) (h : globals gs s = .ok a s') :
    ∃ vars, List.Forall₂ (Global.Recorded s'.table) gs vars ∧ s.scope.root.Gains vars [] s'.scope.root ∧
      s'.scope.inner = [] := by
  induction gs generalizing s with
  | nil =>
    cases h
    exact ⟨[], .nil, .refl _, hinner⟩
  | cons g rest ih =>
    rw [globals] at h
    obtain ⟨_, s₁, hfirst, hrest⟩ := bind_eq_ok.mp h
    obtain ⟨v, hv, hgains, hinner₁⟩ := gains_of_global hinner hfirst
    obtain ⟨vars, hvars, hgains', hinner'⟩ := ih hinner₁ hrest
    have hwithin := within_of_confined (fun _ => confined_globals rest) hrest
    exact ⟨v :: vars, .cons (hv.mono hwithin) hvars, hgains.trans hgains', hinner'⟩

/-- Where a global is refused, those before it have been defined. -/
theorem gains_of_globals_error {gs : List Global} (hinner : s.scope.inner = []) (h : globals gs s = .error e u) :
    ∃ before g rest t vars, gs = before ++ g :: rest ∧ globals before s = .ok () t ∧ global g t = .error e u ∧
      List.Forall₂ (Global.Recorded u.table) before vars ∧ s.scope.root.Gains vars [] u.scope.root := by
  rw [globals_eq_forM] at h
  obtain ⟨before, g, rest, t, hsplit, hbefore, hg⟩ := forM_eq_error h
  rw [← globals_eq_forM] at hbefore
  obtain ⟨vars, hvars, hgains, -⟩ := gains_of_globals hinner hbefore
  have hwithin := within_of_confined (fun _ => confined_global g) hg
  rw [← scope_of_global_error hg] at hgains
  exact ⟨before, g, rest, t, vars, hsplit, hbefore, hg, hvars.imp fun _ _ h => h.mono hwithin, hgains⟩

/-- Functions that are accepted are defined in the root frame. -/
theorem gains_of_functions {fs : List Function} {a : Unit} (hinner : s.scope.inner = [])
    (h : functions fs s = .ok a s') :
    ∃ funs, List.Forall₂ (Function.Recorded s'.table) fs funs ∧ s.scope.root.Gains [] funs s'.scope.root ∧
      s'.scope.inner = [] := by
  induction fs generalizing s with
  | nil =>
    cases h
    exact ⟨[], .nil, .refl _, hinner⟩
  | cons f rest ih =>
    rw [functions] at h
    obtain ⟨_, s₁, hfirst, hrest⟩ := bind_eq_ok.mp h
    obtain ⟨-, e, hrefused⟩ | ⟨-, info, hinfo, hgains, hinner₁⟩ := gains_of_function f hinner
    · cases hrefused.symm.trans hfirst
    · rw [hfirst] at hinfo hgains hinner₁
      obtain ⟨funs, hfuns, hgains', hinner'⟩ := ih hinner₁ hrest
      have hwithin := within_of_confined (fun _ => confined_functions rest) hrest
      exact ⟨info :: funs, .cons (hinfo.mono hwithin) hfuns, hgains.trans hgains', hinner'⟩

/-- Where a function is refused, those before it have been defined, and the function too if its signature fits. -/
theorem gains_of_functions_error {fs : List Function} (hinner : s.scope.inner = []) (h : functions fs s = .error e u) :
    ∃ before f rest t accepted funs, fs = before ++ f :: rest ∧ functions before s = .ok () t ∧
      function f t = .error e u ∧
      (¬ f.Fits t.scope.root ∧ accepted = before ∨ f.Fits t.scope.root ∧ accepted = before ++ [f]) ∧
      List.Forall₂ (Function.Recorded u.table) accepted funs ∧ s.scope.root.Gains [] funs u.scope.root := by
  rw [functions_eq_forM] at h
  obtain ⟨before, f, rest, t, hsplit, hbefore, hf⟩ := forM_eq_error h
  rw [← functions_eq_forM] at hbefore
  obtain ⟨funs, hfuns, hgains, hinner'⟩ := gains_of_functions hinner hbefore
  have hwithin := within_of_confined (fun _ => confined_function f) hf
  have hfuns' : List.Forall₂ (Function.Recorded u.table) before funs := hfuns.imp fun _ _ h => h.mono hwithin
  obtain ⟨hunfit, e', hrefused⟩ | ⟨hfits, info, hinfo, hlast, -⟩ := gains_of_function f hinner'
  · cases hrefused.symm.trans hf
    exact ⟨before, f, rest, u, before, funs, hsplit, hbefore, hf, .inl ⟨hunfit, rfl⟩, hfuns', hgains⟩
  · rw [hf] at hinfo hlast
    exact ⟨before, f, rest, t, before ++ [f], funs ++ [info], hsplit, hbefore, hf, .inr ⟨hfits, rfl⟩,
      List.rel_append hfuns' (.cons hinfo .nil), hgains.trans hlast⟩

/-- Where the check of a program ends, with the globals that it has come to define and the functions whose signatures
it has come to accept. -/
inductive Ends (p : Program) (s : CheckerState) :
    List Global → List Function → EStateM.Result TypingError CheckerState Unit → Prop
  /-- The entry point is missing or returns no integer; nothing else is looked at. -/
  | atEntryPoint {e : TypingError} {t : CheckerState} :
    entryPoint p s = .error e t → Ends p s [] [] (.error e t)
  /-- A global is refused. -/
  | atGlobal {gs g rest} {t u : CheckerState} {e : TypingError} :
    entryPoint p s = .ok () s → p.globals = gs ++ g :: rest → globals gs s = .ok () t → global g t = .error e u →
    Ends p s gs [] (.error e u)
  /-- The signature of a function is not accepted. -/
  | atSignature {fs f rest} {t t' u : CheckerState} {e : TypingError} :
    entryPoint p s = .ok () s → globals p.globals s = .ok () t → p.functions = fs ++ f :: rest →
    functions fs t = .ok () t' → ¬ f.Fits t'.scope.root → function f t' = .error e u →
    Ends p s p.globals fs (.error e u)
  /-- The signature of a function is accepted, but not its parameters or its body. -/
  | inFunction {fs f rest} {t t' u : CheckerState} {e : TypingError} :
    entryPoint p s = .ok () s → globals p.globals s = .ok () t → p.functions = fs ++ f :: rest →
    functions fs t = .ok () t' → f.Fits t'.scope.root → function f t' = .error e u →
    Ends p s p.globals (fs ++ [f]) (.error e u)
  /-- The program is accepted. -/
  | accepted {t u : CheckerState} :
    entryPoint p s = .ok () s → globals p.globals s = .ok () t → functions p.functions t = .ok () u →
    Ends p s p.globals p.functions (.ok () u)

/-- Wherever the check ends, the root frame has gained what has been defined and accepted there. -/
theorem exists_ends (p : Program) (hinner : s.scope.inner = []) : ∃ gs fs vars funs,
    Ends p s gs fs (program p s) ∧ List.Forall₂ (Global.Recorded (state (program p s)).table) gs vars ∧
      List.Forall₂ (Function.Recorded (state (program p s)).table) fs funs ∧
      s.scope.root.Gains vars funs (state (program p s)).scope.root := by
  cases hentry : entryPoint p s with
  | error e t =>
    have hrun : program p s = .error e t := bind_of_error hentry
    have hscope : t.scope = s.scope := scope_of_neutral (confined_entryPoint p) hentry
    rw [hrun]
    refine ⟨[], [], [], [], .atEntryPoint hentry, .nil, .nil, ?_⟩
    rw [state, hscope]
    exact .refl _
  | ok a s₁ =>
    obtain ⟨rfl, -⟩ := entryPoint_eq_ok hentry
    have hrun : program p s₁ = (globals p.globals >>= fun _ => functions p.functions) s₁ := bind_of_ok hentry
    rw [hrun]
    cases hglobals : globals p.globals s₁ with
    | error e u =>
      rw [bind_of_error hglobals]
      obtain ⟨gs, g, rest, t, vars, hsplit, hbefore, hg, hvars, hgains⟩ := gains_of_globals_error hinner hglobals
      exact ⟨gs, [], vars, [], .atGlobal hentry hsplit hbefore hg, hvars, .nil, hgains⟩
    | ok a t =>
      rw [bind_of_ok hglobals]
      obtain ⟨vars, hvars, hgains, hinner₁⟩ := gains_of_globals hinner hglobals
      have hwithin := within_of_confined (fun _ => confined_functions p.functions) (s := t) rfl
      have hvars' := hvars.imp fun _ _ h => h.mono hwithin
      -- What the globals add comes before what the functions add.
      have hall {funs : List FunctionInfo} {root : StaticFrame} (h : t.scope.root.Gains [] funs root) :
          s₁.scope.root.Gains vars funs root := by
        simpa using hgains.trans h
      cases hfunctions : functions p.functions t with
      | ok b u =>
        obtain ⟨funs, hfuns, hgains', -⟩ := gains_of_functions hinner₁ hfunctions
        rw [hfunctions] at hvars'
        exact ⟨p.globals, p.functions, vars, funs, .accepted hentry hglobals hfunctions, hvars', hfuns, hall hgains'⟩
      | error e u =>
        obtain ⟨before, f, rest, t', accepted, funs, hsplit, hbefore, hf, hlast, hfuns, hgains'⟩ :=
          gains_of_functions_error hinner₁ hfunctions
        rw [hfunctions] at hvars'
        refine ⟨p.globals, accepted, vars, funs, ?_, hvars', hfuns, hall hgains'⟩
        obtain ⟨hunfit, rfl⟩ | ⟨hfits, rfl⟩ := hlast
        · exact .atSignature hentry hglobals hsplit hbefore hunfit hf
        · exact .inFunction hentry hglobals hsplit hbefore hfits hf

end Checker

/-! ## §5 One checker after another -/

namespace CheckerState

/-- The state after the check of a program, whether it has been accepted or refused. -/
def after (s : CheckerState) (p : Program) : CheckerState :=
  state (Checker.program p s)

/-- A checker for the given builtins that has checked some programs in a row. -/
def analyzer (bs : List FunctionInfo) (earlier : List Program) : CheckerState :=
  earlier.foldl after (.withFunctions bs)

/-- A checker that has checked nothing, with the given definitions in its root frame. -/
def fresh (root : StaticFrame) : CheckerState :=
  ⟨⟨root, []⟩, .empty, .nil, .empty⟩

/-- Outside every block, a check ends outside every block. -/
theorem inner_after {s : CheckerState} (p : Program) (hinner : s.scope.inner = []) : (s.after p).scope.inner = [] := by
  have hprogram : Checker.Inside .empty Checker.Anyhow (Checker.program p) := Checker.confined_program p
  rw [← Scope.around?_eq_none_iff] at hinner ⊢
  exact (hprogram.keeps s).trans hinner

theorem inner_analyzer (bs : List FunctionInfo) (earlier : List Program) : (analyzer bs earlier).scope.inner = [] := by
  have hfold (s : CheckerState) (hinner : s.scope.inner = []) : (earlier.foldl after s).scope.inner = [] := by
    induction earlier generalizing s with
    | nil => exact hinner
    | cons p rest ih => exact ih (s.after p) (inner_after p hinner)
  exact hfold _ (rooted_withFunctions bs).inner

/-- Outside every block, a check sees of the state nothing but the definitions in the root frame. -/
theorem isolated {s : CheckerState} (p : Program) (hinner : s.scope.inner = []) {root : StaticFrame}
    (hroot : s.scope.root.Same root) :
    Alongside (Alike s.table Checker.Anyhow) (Checker.program p s) (Checker.program p (fresh root)) :=
  (Checker.confined_program p).agrees _ _ ⟨⟨hroot, hinner⟩, rfl, trivial⟩

end CheckerState

/-- A checker that has checked any programs before leaves its blocks as they were, and its root frame with what it had,
the globals that the check has come to define and the functions whose signatures it has come to accept.  It accepts or
refuses the program, and records entries for it, as a fresh checker with the same definitions does. -/
theorem analyzer_reusable (bs : List FunctionInfo) (earlier : List Program) (p : Program) :
    let s := CheckerState.analyzer bs earlier
    (s.after p).scope.depth = s.scope.depth ∧ (s.after p).scope.inner = s.scope.inner ∧
      (∃ gs fs vars funs, Checker.Ends p s gs fs (Checker.program p s) ∧
        List.Forall₂ (Global.Recorded (s.after p).table) gs vars ∧
        List.Forall₂ (Function.Recorded (s.after p).table) fs funs ∧
        s.scope.root.Gains vars funs (s.after p).scope.root) ∧
      ∀ root, s.scope.root.Same root →
        result (Checker.program p s) = result (Checker.program p (.fresh root)) ∧
        (s.after p).table = ((CheckerState.fresh root).after p).table.over s.table := by
  intro s
  have hinner : s.scope.inner = [] := CheckerState.inner_analyzer bs earlier
  have hinner' : (s.after p).scope.inner = s.scope.inner := (CheckerState.inner_after p hinner).trans hinner.symm
  refine ⟨?_, hinner', Checker.exists_ends p hinner, fun root hroot => ?_⟩
  · rw [Scope.depth, Scope.depth, hinner']
  · have hisolated := CheckerState.isolated p hinner hroot
    exact ⟨hisolated.result, hisolated.state.table⟩

/-- The tree of a program that is refused in the body of its first function:
`FUN help(x: Integer) DO LET y = z; END FUN main() DO RETURN 0; END`. -/
def brokenHelp : Program where
  globals := []
  functions := [⟨⟨0, 0⟩, "help", [⟨⟨1, 9⟩, "x", "Integer"⟩], none,
      [.declaration ⟨2, 25⟩ "y" none (some (.variable ⟨3, 33⟩ "z"))]⟩,
    ⟨⟨4, 40⟩, "main", [], none, [.returning 54 (.literal ⟨5, 61⟩ (.integer 0))]⟩]

/-- The tree of a program that declares a local: `FUN main() DO LET x = 1; RETURN x; END`. -/
def localMain : Program where
  globals := []
  functions := [⟨⟨0, 0⟩, "main", [], none,
    [.declaration ⟨1, 14⟩ "x" none (some (.literal ⟨2, 22⟩ (.integer 1))), .returning 25 (.variable ⟨3, 32⟩ "x")]⟩]

/-- The builtin and the function that the first program came to define. -/
def helpFrame : StaticFrame :=
  ⟨[], [(("print", 1), Builtin.print.info), (("help", 1), ⟨"help", "help", [.integer], .nil⟩)]⟩

/-- After the first program has been refused, the name of its parameter is still taken; yet the second program is
accepted and annotated as by a fresh checker that knows `help`. -/
theorem analyzer_reusable_after_refusal :
    (CheckerState.analyzer builtins [brokenHelp]).locals.taken = ["x"] ∧
      (CheckerState.analyzer builtins [brokenHelp]).scope.root.Same helpFrame ∧
      result (Checker.program localMain (.analyzer builtins [brokenHelp])) =
        result (Checker.program localMain (.fresh helpFrame)) ∧
      ((CheckerState.analyzer builtins [brokenHelp]).after localMain).table =
        ((CheckerState.fresh helpFrame).after localMain).table.over
          (CheckerState.analyzer builtins [brokenHelp]).table ∧
      result (Checker.program localMain (.fresh helpFrame)) = .ok () := by
  have htaken : (CheckerState.analyzer builtins [brokenHelp]).locals.taken = ["x"] := by cbv
  have hroot : (CheckerState.analyzer builtins [brokenHelp]).scope.root =
      ⟨[], [(("help", 1), ⟨"help", "help", [.integer], .nil⟩), (("print", 1), Builtin.print.info)]⟩ := by cbv
  have hsame : (CheckerState.analyzer builtins [brokenHelp]).scope.root.Same helpFrame := by
    rw [hroot]
    refine ⟨rfl, funext fun name => funext fun arity => ?_⟩
    unfold Frame.findFunction? helpFrame
    by_cases hkey : (name, arity) = ("help", 1)
    · rw [hkey]
      rfl
    · rw [List.lookup_cons, beq_false_of_ne hkey, List.lookup_cons, List.lookup_cons, List.lookup_cons,
        beq_false_of_ne hkey]
  have hok : result (Checker.program localMain (.fresh helpFrame)) = .ok () := by cbv
  obtain ⟨-, -, -, hfresh⟩ := analyzer_reusable builtins [brokenHelp] localMain
  obtain ⟨hresult, htable⟩ := hfresh helpFrame hsame
  exact ⟨htaken, hsame, hresult, htable, hok⟩

end BlockLang
