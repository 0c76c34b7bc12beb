import BlockLang.Proofs.Stateful
import BlockLang.Proofs.Typing.Judgment
import BlockLang.Proofs.Typing.Tables
import BlockLang.Proofs.Grammar.Written

/-!
# Soundness of the checker

A program that the checker accepts obeys the typing rules, read with the finished side table.

The checker walks over the program with a scope and fills the table as it goes.  Three things are followed along the
walk: the scope has the same names as the lexical context, the table only grows, and what has been recorded for a part
of the tree makes that part obey the rules in every table that still knows it.

## Main statements

- `Checker.expression_binary_eq_ok` and its like: what has been done for an expression of each form.
- `Checker.hasType_of_expression`, `Checker.checks_of_statement`, `Checker.functionTyped_of_function`
- `programTyped_of_check`: an accepted program with distinct ids obeys the rules of its side table.
-/

namespace BlockLang

open SideTable Stateful

/-! ## §1 Scopes and contexts -/

/-- Looking a name up in a scope finds the entry of the declaration that the context knows for it. -/
structure Scope.Reads (t : SideTable) (F : List Function) (scope : Scope) (Γ : Context) : Prop where
  names {name : String} {v : VariableInfo} : scope.findVariable? name = some v →
    ∃ d, Γ.find? name = some d ∧ t.findVariable? d = some v
  callees {name : String} {arity : Nat} {f : FunctionInfo} : scope.findFunction? name arity = some f →
    Callee t F name arity f ∧ f.arity = arity

/-- A block without names can be left out. -/
theorem Scope.Reads.of_open {t : SideTable} {F : List Function} {scope : Scope} {Γ : Context}
    (h : scope.Reads t F ([] :: Γ)) : scope.Reads t F Γ :=
  ⟨h.names, h.callees⟩

/-- A checker has recorded entries under the given ids and is back in its scope. -/
structure CheckerState.Proceeds (ids : List Nat) (s s' : CheckerState) : Prop where
  scope : s'.scope = s.scope
  returns : s'.returns = s.returns
  grows : s.table.Grows ids s'.table

namespace CheckerState.Proceeds

variable {ids more : List Nat} {s s' s'' : CheckerState}

theorem refl (ids : List Nat) (s : CheckerState) : s.Proceeds ids s :=
  ⟨rfl, rfl, .refl _ _⟩

theorem trans (h : s.Proceeds ids s') (h' : s'.Proceeds more s'') : s.Proceeds (ids ++ more) s'' :=
  ⟨h'.scope.trans h.scope, h'.returns.trans h.returns, h.grows.trans h'.grows⟩

theorem perm (h : s.Proceeds ids s') (hp : ids.Perm more) : s.Proceeds more s' :=
  ⟨h.scope, h.returns, h.grows.perm hp⟩

theorem setType (s : CheckerState) (id : Nat) (τ : Ty) :
    s.Proceeds [id] { s with table := s.table.setType id τ } :=
  ⟨rfl, rfl, .setType _ _ _⟩

end CheckerState.Proceeds

namespace Checker

variable {t : SideTable} {B : List (Nat × Nat)} {F : List Function} {Γ : Context} {s s' : CheckerState}

/-! ## §2 Single steps -/

theorem setType_eq_ok {id : Nat} {σ τ : Ty} :
    setType id σ s = .ok τ s' ↔ τ = σ ∧ s' = { s with table := s.table.setType id σ } := by
  change EStateM.Result.ok σ { s with table := s.table.setType id σ } = .ok τ s' ↔ _
  simp only [EStateM.Result.ok.injEq, eq_comm]

theorem setVariable_bind {β : Type} (id : Nat) (v : VariableInfo) (f : Unit → Checker β) :
    (setVariable id v >>= f) s = f () { s with table := s.table.setVariable id v } := rfl

theorem setFunction_bind {β : Type} (id : Nat) (g : FunctionInfo) (f : Unit → Checker β) :
    (setFunction id g >>= f) s = f () { s with table := s.table.setFunction id g } := rfl

theorem resolveVariable_eq_ok {name : String} {offset : Nat} {v : VariableInfo} :
    resolveVariable name offset s = .ok v s' ↔ s.scope.findVariable? name = some v ∧ s' = s := by
  unfold resolveVariable
  rw [get_bind]
  cases s.scope.findVariable? name with
  | none => simp [throw_ne_ok]
  | some w => simp [pure_eq_ok, eq_comm]

theorem resolveFunction_eq_ok {name : String} {arity offset : Nat} {f : FunctionInfo} :
    resolveFunction name arity offset s = .ok f s' ↔ s.scope.findFunction? name arity = some f ∧ s' = s := by
  unfold resolveFunction
  rw [get_bind]
  cases s.scope.findFunction? name arity with
  | none => simp [throw_ne_ok]
  | some g => simp [pure_eq_ok, eq_comm]

theorem requireAssignable_eq_ok {target found : Ty} {offset : Nat} {u : Unit} :
    requireAssignable target found offset s = .ok u s' ↔ target.accepts found ∧ s' = s := by
  unfold requireAssignable
  cases target.accepts found with
  | false => simp [throw_ne_ok]
  | true => simp [pure_eq_ok, eq_comm]

/-- A part that is done for its effects succeeds if the part does. -/
theorem discard_eq_ok {α : Type} {x : Checker α} {u : Unit} : discard x s = .ok u s' ↔ ∃ a, x s = .ok a s' := by
  change EStateM.map _ x s = _ ↔ _
  unfold EStateM.map
  cases x s <;> simp

theorem accepts_integer_iff {σ : Ty} : Ty.integer.accepts σ ↔ σ = .integer := by
  cases σ <;> decide

theorem accepts_boolean_iff {σ : Ty} : Ty.boolean.accepts σ ↔ σ = .boolean := by
  cases σ <;> decide

theorem typeOfLiteral_eq_ok {value : Literal} {offset : Nat} {τ : Ty} (h : typeOfLiteral value offset s = .ok τ s') :
    τ = value.type ∧ s' = s := by
  -- Two kinds of literals have bounds to check; the others cannot fail.
  cases value with
  | integer n =>
    rw [typeOfLiteral] at h
    split_ifs at h
    · cases h
      exact ⟨rfl, rfl⟩
    · cases h
  | decimal d =>
    rw [typeOfLiteral] at h
    split_ifs at h
    · cases h
    · cases h
      exact ⟨rfl, rfl⟩
  | nil | boolean b | character c | string text =>
    cases h
    exact ⟨rfl, rfl⟩

/-- Arguments are compared with parameters one by one as far as there are both. -/
theorem requireArguments_eq_ok {targets found : List Ty} {arguments : List Expr} {u : Unit}
    (h : requireArguments targets found arguments s = .ok u s') :
    s' = s ∧ (targets.length = found.length → found.length = arguments.length →
      List.Forall₂ (fun target source => Ty.accepts target source) targets found) := by
  -- Three lists go side by side; where one ends early, the lengths given do not fit and nothing is claimed.
  induction targets generalizing found arguments with
  | nil =>
    cases h
    refine ⟨rfl, fun hfound _ => ?_⟩
    rw [List.length_eq_zero_iff.mp hfound.symm]
    exact .nil
  | cons τ targets ih =>
    cases found with
    | nil =>
      cases h
      exact ⟨rfl, nofun⟩
    | cons σ found =>
      cases arguments with
      | nil =>
        cases h
        exact ⟨rfl, nofun⟩
      | cons e arguments =>
        rw [requireArguments] at h
        obtain ⟨_, s₁, hhead, htail⟩ := bind_eq_ok.mp h
        obtain ⟨haccepts, rfl⟩ := requireAssignable_eq_ok.mp hhead
        obtain ⟨rfl, hrest⟩ := ih htail
        exact ⟨rfl, fun hfound harguments =>
          .cons haccepts (hrest (Nat.succ.inj hfound) (Nat.succ.inj harguments))⟩

/-! ## §3 What checking an expression does -/

theorem expression_literal_eq_ok {node : Node} {value : Literal} {τ : Ty}
    (h : expression (.literal node value) s = .ok τ s') :
    τ = value.type ∧ s' = { s with table := s.table.setType node.id value.type } := by
  rw [expression] at h
  obtain ⟨σ, s₁, hliteral, hset⟩ := bind_eq_ok.mp h
  obtain ⟨rfl, rfl⟩ := typeOfLiteral_eq_ok hliteral
  exact setType_eq_ok.mp hset

/-- A group has to hold a binary expression. -/
theorem expression_group_eq_ok {node : Node} {inner : Expr} {τ : Ty}
    (h : expression (.group node inner) s = .ok τ s') : inner.isBinary = true ∧ ∃ s₁, expression inner s = .ok τ s₁ ∧
      s' = { s₁ with table := s₁.table.setType node.id τ } := by
  rw [expression] at h
  split_ifs at h with hbinary
  · obtain ⟨σ, s₁, hinner, hset⟩ := bind_eq_ok.mp h
    obtain ⟨rfl, rfl⟩ := setType_eq_ok.mp hset
    exact ⟨hbinary, s₁, hinner, rfl⟩
  · cases h

/-- The operands of an operator are checked from left to right, and then the type of the operator is recorded. -/
theorem expression_binary_eq_ok {node : Node} {op : Operator} {left right : Expr} {τ : Ty}
    (h : expression (.binary node op left right) s = .ok τ s') : ∃ a b s₁ s₂, expression left s = .ok a s₁ ∧
      expression right s₁ = .ok b s₂ ∧ Ty.ofBinary? op a b = some τ ∧
      s' = { s₂ with table := s₂.table.setType node.id τ } := by
  rw [expression] at h
  obtain ⟨a, s₁, hleft, h₁⟩ := bind_eq_ok.mp h
  obtain ⟨b, s₂, hright, h₂⟩ := bind_eq_ok.mp h₁
  refine ⟨a, b, s₁, s₂, hleft, hright, ?_⟩
  cases hresult : Ty.ofBinary? op a b with
  | none =>
    rw [hresult] at h₂
    cases h₂
  | some σ =>
    simp only [hresult] at h₂
    obtain ⟨rfl, rfl⟩ := setType_eq_ok.mp h₂
    exact ⟨rfl, rfl⟩

theorem expression_variable_eq_ok {node : Node} {name : String} {τ : Ty}
    (h : expression (.variable node name) s = .ok τ s') : ∃ v, s.scope.findVariable? name = some v ∧
      τ = (if v.list then .any else v.type) ∧
      s' = { s with table := (s.table.setVariable node.id v).setType node.id τ } := by
  rw [expression] at h
  obtain ⟨v, s₁, hresolve, h₁⟩ := bind_eq_ok.mp h
  obtain ⟨hfind, rfl⟩ := resolveVariable_eq_ok.mp hresolve
  rw [setVariable_bind] at h₁
  obtain ⟨rfl, rfl⟩ := setType_eq_ok.mp h₁
  exact ⟨v, hfind, rfl, rfl⟩

/-- The index is checked before the list is looked up. Only lists can be indexed. -/
theorem expression_element_eq_ok {node : Node} {name : String} {index : Expr} {τ : Ty}
    (h : expression (.element node name index) s = .ok τ s') : ∃ v s₁, expression index s = .ok .integer s₁ ∧
      s₁.scope.findVariable? name = some v ∧ v.list = true ∧ τ = v.type ∧
      s' = { s₁ with table := (s₁.table.setVariable node.id v).setType node.id v.type } := by
  rw [expression] at h
  obtain ⟨σ, s₁, hindex, h₁⟩ := bind_eq_ok.mp h
  obtain ⟨_, s₂, hassignable, h₂⟩ := bind_eq_ok.mp h₁
  obtain ⟨haccepts, rfl⟩ := requireAssignable_eq_ok.mp hassignable
  obtain rfl := accepts_integer_iff.mp haccepts
  obtain ⟨v, s₃, hresolve, h₃⟩ := bind_eq_ok.mp h₂
  obtain ⟨hfind, rfl⟩ := resolveVariable_eq_ok.mp hresolve
  split_ifs at h₃ with hlist
  · rw [setVariable_bind] at h₃
    obtain ⟨rfl, rfl⟩ := setType_eq_ok.mp h₃
    exact ⟨v, s₃, hindex, hfind, hlist, rfl, rfl⟩
  · cases h₃

theorem expressions_cons_eq_ok {e : Expr} {rest : List Expr} {found : List Ty}
    (h : expressions (e :: rest) s = .ok found s') : ∃ τ τs s₁, expression e s = .ok τ s₁ ∧
      expressions rest s₁ = .ok τs s' ∧ found = τ :: τs := by
  rw [expressions] at h
  obtain ⟨τ, s₁, hhead, h₁⟩ := bind_eq_ok.mp h
  obtain ⟨τs, s₂, htail, h₂⟩ := bind_eq_ok.mp h₁
  cases h₂
  exact ⟨τ, τs, s₁, hhead, htail, rfl⟩

theorem length_of_expressions {es : List Expr} {found : List Ty} (h : expressions es s = .ok found s') :
    found.length = es.length := by
  induction es generalizing s found with
  | nil =>
    cases h
    rfl
  | cons e rest ih =>
    obtain ⟨τ, τs, s₁, -, htail, rfl⟩ := expressions_cons_eq_ok h
    exact congrArg (· + 1) (ih htail)

/-- The callee is looked up by the number of arguments. If it has as many parameters, no argument is left
uncompared. -/
theorem expression_call_eq_ok {node : Node} {name : String} {arguments : List Expr} {τ : Ty}
    (h : expression (.call node name arguments) s = .ok τ s') : ∃ found f s₁, expressions arguments s = .ok found s₁ ∧
      s₁.scope.findFunction? name arguments.length = some f ∧
      (f.arity = arguments.length →
        List.Forall₂ (fun target source => Ty.accepts target source) f.parameters found) ∧
      τ = f.returns ∧ s' = { s₁ with table := (s₁.table.setFunction node.id f).setType node.id f.returns } := by
  rw [expression] at h
  obtain ⟨found, s₁, harguments, h₁⟩ := bind_eq_ok.mp h
  obtain ⟨f, s₂, hresolve, h₂⟩ := bind_eq_ok.mp h₁
  obtain ⟨hfind, rfl⟩ := resolveFunction_eq_ok.mp hresolve
  obtain ⟨_, s₃, hrequire, h₃⟩ := bind_eq_ok.mp h₂
  obtain ⟨rfl, haccepted⟩ := requireArguments_eq_ok hrequire
  rw [setFunction_bind] at h₃
  have hlength := length_of_expressions harguments
  refine ⟨found, f, s₃, harguments, hfind, fun harity => ?_, setType_eq_ok.mp h₃⟩
  exact haccepted (harity.trans hlength.symm) hlength

/-- A list that is written down fits where anything does. -/
theorem expression_list_eq_ok {node : Node} {elements : List Expr} {τ : Ty}
    (h : expression (.list node elements) s = .ok τ s') : ∃ found s₁, expressions elements s = .ok found s₁ ∧
      τ = .any ∧ s' = { s₁ with table := s₁.table.setType node.id .any } := by
  rw [expression] at h
  obtain ⟨_, s₁, helements, hset⟩ := bind_eq_ok.mp h
  obtain ⟨found, hfound⟩ := discard_eq_ok.mp helements
  exact ⟨found, s₁, hfound, setType_eq_ok.mp hset⟩

/-! ## §4 Expressions -/

/-- A name that the scope knows stands for its declaration. -/
theorem stands_of_findVariable? {node : Node} {name : String} {v : VariableInfo} (hreads : s.scope.Reads t F Γ)
    (hfind : s.scope.findVariable? name = some v) (hbind : Γ.access node name ⊆ B)
    (hnode : t.findVariable? node.id = some v) : Stands t B Γ node name v := by
  obtain ⟨d, hd, hv⟩ := hreads.names hfind
  rw [Context.access_of_find? hd] at hbind
  exact ⟨d, hd, hbind List.mem_cons_self, hv, hnode⟩

/-- The scope and the context know the same declaration of a name. -/
theorem eq_of_stands {node : Node} {name : String} {v w : VariableInfo} (hreads : s.scope.Reads t F Γ)
    (hfind : s.scope.findVariable? name = some w) (hstands : Stands t B Γ node name v) : v = w := by
  obtain ⟨d, hd, -, hv, -⟩ := hstands
  obtain ⟨d', hd', hw⟩ := hreads.names hfind
  obtain rfl : d = d' := Option.some.inj (hd.symm.trans hd')
  exact Option.some.inj (hv.symm.trans hw)

mutual

/-- An expression that the checker accepts has the type that the checker finds. -/
theorem hasType_of_expression : ∀ (e : Expr) {s s' : CheckerState} {τ : Ty}, expression e s = .ok τ s' →
    s.Proceeds e.ids s' ∧
      (t.Keeps s'.table → s.scope.Reads t F Γ → e.bindings Γ ⊆ B → HasType t B F Γ e τ)
  | .literal node value, s, s', τ, h => by
    obtain ⟨rfl, rfl⟩ := expression_literal_eq_ok h
    exact ⟨⟨rfl, rfl, .setType _ _ _⟩, fun hkeeps _ _ => .literal hkeeps.type?⟩
  | .group node inner, s, s', τ, h => by
    obtain ⟨-, s₁, hinner, rfl⟩ := expression_group_eq_ok h
    obtain ⟨hproceeds, htyped⟩ := hasType_of_expression inner hinner
    refine ⟨hproceeds.trans ⟨rfl, rfl, .setType _ _ _⟩, fun hkeeps hreads hbind => ?_⟩
    exact .group (htyped (hkeeps.of_grows (.setType _ _ _)) hreads hbind) hkeeps.type?
  | .binary node op left right, s, s', τ, h => by
    obtain ⟨a, b, s₁, s₂, hleft, hright, hresult, rfl⟩ := expression_binary_eq_ok h
    obtain ⟨hpl, htl⟩ := hasType_of_expression left hleft
    obtain ⟨hpr, htr⟩ := hasType_of_expression right hright
    refine ⟨(hpl.trans hpr).trans ⟨rfl, rfl, .setType _ _ _⟩, fun hkeeps hreads hbind => ?_⟩
    obtain ⟨hbl, hbr⟩ := List.append_subset.mp hbind
    -- The final table keeps what stands before the last entry, hence also what both operands recorded.
    have hkeeps₂ : t.Keeps s₂.table := hkeeps.of_grows (.setType _ _ _)
    have hreads₁ : s₁.scope.Reads t F Γ := hpl.scope ▸ hreads
    exact .binary (htl (hkeeps₂.of_grows hpr.grows) hreads hbl) (htr hkeeps₂ hreads₁ hbr) hresult hkeeps.type?
  | .variable node name, s, s', τ, h => by
    obtain ⟨v, hfind, rfl, rfl⟩ := expression_variable_eq_ok h
    refine ⟨⟨rfl, rfl, .setAccess _ _ _ _⟩, fun hkeeps hreads hbind => ?_⟩
    have hnode := (hkeeps.of_grows (.setType _ _ _)).findVariable?
    exact .access (stands_of_findVariable? hreads hfind hbind hnode) hkeeps.type?
  | .element node name index, s, s', τ, h => by
    obtain ⟨v, s₁, hindex, hfind, hlist, rfl, rfl⟩ := expression_element_eq_ok h
    obtain ⟨hproceeds, htyped⟩ := hasType_of_expression index hindex
    refine ⟨hproceeds.trans ⟨rfl, rfl, .setAccess _ _ _ _⟩, fun hkeeps hreads hbind => ?_⟩
    obtain ⟨hbi, hbv⟩ := List.append_subset.mp hbind
    have hreads₁ : s₁.scope.Reads t F Γ := hproceeds.scope ▸ hreads
    have hnode := (hkeeps.of_grows (.setType _ _ _)).findVariable?
    have hint := htyped (hkeeps.of_grows (.setAccess _ _ _ _)) hreads hbi
    exact .element hint (stands_of_findVariable? hreads₁ hfind hbv hnode) hlist hkeeps.type?
  | .call node name arguments, s, s', τ, h => by
    obtain ⟨found, f, s₁, harguments, hfind, hfits, rfl, rfl⟩ := expression_call_eq_ok h
    obtain ⟨hproceeds, htyped⟩ := haveTypes_of_expressions arguments harguments
    refine ⟨hproceeds.trans ⟨rfl, rfl, .setCall _ _ _ _⟩, fun hkeeps hreads hbind => ?_⟩
    have hreads₁ : s₁.scope.Reads t F Γ := hproceeds.scope ▸ hreads
    obtain ⟨hcallee, harity⟩ := hreads₁.callees hfind
    have hnode := (hkeeps.of_grows (.setType _ _ _)).findFunction?
    exact .call (htyped (hkeeps.of_grows (.setCall _ _ _ _)) hreads hbind) hcallee (hfits harity) hnode hkeeps.type?
  | .list node elements, s, s', τ, h => by
    obtain ⟨found, s₁, helements, rfl, rfl⟩ := expression_list_eq_ok h
    obtain ⟨hproceeds, htyped⟩ := haveTypes_of_expressions elements helements
    have hset := hproceeds.trans (.setType s₁ node.id .any)
    -- The list gets its entry last, but its id stands first.
    refine ⟨hset.perm List.perm_append_comm, fun hkeeps hreads hbind => ?_⟩
    exact .list (htyped (hkeeps.of_grows (.setType _ _ _)) hreads hbind) hkeeps.type?

theorem haveTypes_of_expressions : ∀ (es : List Expr) {s s' : CheckerState} {found : List Ty},
    expressions es s = .ok found s' →
    s.Proceeds (Expr.allIds es) s' ∧
      (t.Keeps s'.table → s.scope.Reads t F Γ → Expr.allBindings Γ es ⊆ B → HaveTypes t B F Γ es found)
  | [], s, s', found, h => by
    cases h
    exact ⟨.refl _ _, fun _ _ _ => .nil⟩
  | e :: rest, s, s', found, h => by
    obtain ⟨τ, τs, s₁, hhead, htail, rfl⟩ := expressions_cons_eq_ok h
    obtain ⟨hph, hth⟩ := hasType_of_expression e hhead
    obtain ⟨hpt, htt⟩ := haveTypes_of_expressions rest htail
    refine ⟨hph.trans hpt, fun hkeeps hreads hbind => ?_⟩
    obtain ⟨hbh, hbt⟩ := List.append_subset.mp hbind
    have hreads₁ : s₁.scope.Reads t F Γ := hph.scope ▸ hreads
    exact .cons (hth (hkeeps.of_grows hpt.grows) hreads hbh) (htt hkeeps hreads₁ hbt)

end

end Checker

/-! ## §5 Frames and blocks -/

/-- A scope has the names of a context, frame by frame; functions are in the root frame alone. -/
structure Scope.Matches (t : SideTable) (F : List Function) (scope : Scope) (Γ : Context) : Prop where
  frames : List.Forall₂ (fun frame names => Aligned (fun v d => t.findVariable? d = some v) frame.vars names)
    scope.frames Γ
  inner : ∀ frame ∈ scope.inner, frame.funs = []
  root {name : String} {arity : Nat} {f : FunctionInfo} : scope.root.findFunction? name arity = some f →
    Callee t F name arity f ∧ f.arity = arity

namespace Scope.Matches

variable {t : SideTable} {F : List Function} {scope scope' : Scope} {Γ : Context}

theorem reads (h : scope.Matches t F Γ) : scope.Reads t F Γ where
  names := by
    intro name v hfind
    -- Frame by frame, a name has an entry in the scope exactly if it has a declaration in the context.
    have hrel := findSome?_rel (h.frames.imp fun _ _ haligned => haligned.lookup name)
    unfold Scope.findVariable? Frame.findVariable? at hfind
    rw [hfind] at hrel
    unfold Context.find?
    generalize List.findSome? _ Γ = found at hrel
    cases hrel with
    | some hd => exact ⟨_, rfl, hd⟩
  callees := by
    intro name arity f hfind
    -- Functions are nowhere but in the root.
    have hinner : scope.inner.findSome? (fun frame => frame.findFunction? name arity) = none := by
      rw [List.findSome?_eq_none_iff]
      intro frame hframe
      rw [Frame.findFunction?, h.inner frame hframe, List.lookup_nil]
    unfold Scope.findFunction? Scope.frames at hfind
    rw [List.findSome?_append, hinner, Option.none_or, List.findSome?_singleton] at hfind
    exact h.root hfind

/-- A block that has just been opened has no names. -/
theorem push (h : scope.Matches t F Γ) : scope.push.Matches t F ([] :: Γ) where
  frames := .cons .nil h.frames
  inner := List.forall_mem_cons.mpr ⟨rfl, h.inner⟩
  root := h.root

end Scope.Matches

/-- Inside a block, defining a variable puts it in front of the innermost frame, which did not have its name. -/
theorem Scope.defineVariable?_eq_some {scope scope' : Scope} {v : VariableInfo} (hinner : scope.inner ≠ [])
    (h : scope.defineVariable? v = some scope') : ∃ frame outer, scope.inner = frame :: outer ∧
      frame.vars.lookup v.name = none ∧ scope' = ⟨scope.root, ⟨(v.name, v) :: frame.vars, frame.funs⟩ :: outer⟩ := by
  obtain ⟨root, inner⟩ := scope
  cases inner with
  | nil => exact absurd rfl hinner
  | cons frame outer =>
    obtain ⟨frame', hframe, rfl⟩ := Option.map_eq_some_iff.mp h
    obtain ⟨hnew, rfl⟩ := Frame.defineVariable?_eq_some.mp hframe
    exact ⟨frame, outer, rfl, hnew, rfl⟩

/-- A checker inside a block has recorded entries under the given ids and touched no frame but the innermost. -/
structure CheckerState.Stays (ids : List Nat) (s s' : CheckerState) : Prop where
  inner : s'.scope.inner ≠ []
  root : s'.scope.root = s.scope.root
  outer : s'.scope.inner.drop 1 = s.scope.inner.drop 1
  returns : s'.returns = s.returns
  grows : s.table.Grows ids s'.table

namespace CheckerState.Stays

variable {ids more : List Nat} {s s' s'' : CheckerState}

theorem trans (h : s.Stays ids s') (h' : s'.Stays more s'') : s.Stays (ids ++ more) s'' :=
  ⟨h'.inner, h'.root.trans h.root, h'.outer.trans h.outer, h'.returns.trans h.returns, h.grows.trans h'.grows⟩

theorem perm (h : s.Stays ids s') (hp : ids.Perm more) : s.Stays more s' :=
  ⟨h.inner, h.root, h.outer, h.returns, h.grows.perm hp⟩

/-- A checker that is back in its scope has stayed there. -/
theorem of_proceeds (hinner : s.scope.inner ≠ []) (h : s.Proceeds ids s') : s.Stays ids s' :=
  ⟨h.scope ▸ hinner, by rw [h.scope], by rw [h.scope], h.returns, h.grows⟩

/-- Closing the block in which a checker has stayed brings it back to its scope. -/
theorem close (h : CheckerState.Stays ids { s with scope := s.scope.push } s') :
    s.Proceeds ids { s' with scope := s'.scope.pop } := by
  refine ⟨?_, h.returns, h.grows⟩
  change Scope.mk s'.scope.root (s'.scope.inner.drop 1) = s.scope
  rw [h.root, h.outer]
  rfl

end CheckerState.Stays

namespace Checker

variable {t : SideTable} {B : List (Nat × Nat)} {F : List Function} {Γ : Context} {s s' : CheckerState}

theorem inScope_eq_ok {α : Type} {body : Checker α} {a : α} : inScope body s = .ok a s' ↔
    ∃ s₁, body { s with scope := s.scope.push } = .ok a s₁ ∧ s' = { s₁ with scope := s₁.scope.pop } := by
  unfold inScope
  cases body { s with scope := s.scope.push } <;> simp [eq_comm, and_assoc]

theorem defineVariable_eq_ok {node : Node} {v : VariableInfo} {u : Unit} : defineVariable node v s = .ok u s' ↔
    ∃ scope, s.scope.defineVariable? v = some scope ∧
      s' = { s with scope := scope, table := s.table.setVariable node.id v } := by
  unfold defineVariable
  rw [get_bind]
  cases s.scope.defineVariable? v with
  | none => simp [throw_ne_ok]
  | some scope =>
    change EStateM.Result.ok _ _ = _ ↔ _
    simp [eq_comm]

theorem defineFunction_eq_ok {node : Node} {info : FunctionInfo} {u : Unit} :
    defineFunction node info s = .ok u s' ↔ ∃ scope, s.scope.defineFunction? info = some scope ∧
      s' = { s with scope := scope, table := s.table.setFunction node.id info } := by
  unfold defineFunction
  rw [get_bind]
  cases s.scope.defineFunction? info with
  | none => simp [throw_ne_ok]
  | some scope =>
    change EStateM.Result.ok _ _ = _ ↔ _
    simp [eq_comm]

theorem freshName_bind {β : Type} (name : String) (f : String → Checker β) :
    (freshName name >>= f) s = f (s.locals.fresh name).1 { s with locals := (s.locals.fresh name).2 } := rfl

/-- What a checker finds inside a block of its own. -/
theorem proceeds_of_inScope {body : Checker Unit} {ids : List Nat} {P : Prop} {u : Unit} (h : inScope body s = .ok u s')
    (hbody : ∀ s₁, body { s with scope := s.scope.push } = .ok u s₁ →
      CheckerState.Stays ids { s with scope := s.scope.push } s₁ ∧
        (t.Keeps s₁.table → s.scope.push.Matches t F ([] :: Γ) → P)) :
    s.Proceeds ids s' ∧ (t.Keeps s'.table → s.scope.Matches t F Γ → P) := by
  obtain ⟨s₁, hrun, rfl⟩ := inScope_eq_ok.mp h
  obtain ⟨hstays, hfound⟩ := hbody s₁ hrun
  exact ⟨hstays.close, fun hkeeps hmatches => hfound hkeeps hmatches.push⟩

/-- A variable defined inside a block is seen from there on. -/
theorem stays_of_defineVariable {node : Node} {v : VariableInfo} {u : Unit} (hinner : s.scope.inner ≠ [])
    (h : defineVariable node v s = .ok u s') : s.Stays [node.id] s' ∧
      (t.Keeps s'.table → s.scope.Matches t F Γ → ∃ names outer, Γ = names :: outer ∧
        names.lookup v.name = none ∧ t.findVariable? node.id = some v ∧
        s'.scope.Matches t F (Γ.declare v.name node.id)) := by
  obtain ⟨scope, hdefine, rfl⟩ := defineVariable_eq_ok.mp h
  obtain ⟨frame, outer, hscope, hfresh, rfl⟩ := Scope.defineVariable?_eq_some hinner hdefine
  refine ⟨⟨List.cons_ne_nil _ _, rfl, by rw [hscope]; rfl, rfl, .setVariable _ _ _⟩, fun hkeeps hmatches => ?_⟩
  obtain ⟨hframes, hfuns, hroot⟩ := hmatches
  rw [Scope.frames, hscope] at hframes
  rw [hscope] at hfuns
  -- The context is taken apart along the frames: its first names belong to the innermost block.
  cases hframes with
  | cons haligned houter =>
    refine ⟨_, _, rfl, (haligned.lookup_eq_none_iff _).mp hfresh, hkeeps.findVariable?, ?_⟩
    obtain ⟨hhead, htail⟩ := List.forall_mem_cons.mp hfuns
    exact ⟨.cons (.cons hkeeps.findVariable? haligned) houter, List.forall_mem_cons.mpr ⟨hhead, htail⟩, hroot⟩

/-! ## §6 Statements -/

theorem resolveType_eq_ok {name : String} {offset : Nat} {τ : Ty} (h : resolveType name offset s = .ok τ s') :
    s' = s := by
  unfold resolveType at h
  cases hname : Ty.ofName? name <;> rw [hname] at h <;> cases h
  rfl

theorem resolveType?_eq_ok {name : Option String} {offset : Nat} {τ : Option Ty}
    (h : resolveType? name offset s = .ok τ s') : s' = s := by
  cases name with
  | none =>
    cases h
    rfl
  | some name =>
    obtain ⟨σ, s₁, hresolve, hrest⟩ := bind_eq_ok.mp h
    cases hrest
    exact resolveType_eq_ok hresolve

theorem listElement?_variable (node : Node) (name : String) : listElement? (.variable node name) s =
    .ok ((s.scope.findVariable? name).bind fun v => if v.list then some v.type else none) s := by
  unfold listElement?
  simp only
  rw [get_bind]
  cases s.scope.findVariable? name <;> rfl

theorem listElement?_eq_ok {e : Expr} {τ : Option Ty} (h : listElement? e s = .ok τ s') : s' = s := by
  cases e with
  | «variable» node name =>
    rw [listElement?_variable] at h
    cases h
    rfl
  | literal | group | binary | element | call | list =>
    cases h
    rfl

/-- A list can be passed on by naming a variable that the scope knows to hold it. -/
theorem supplies_of_listElement? {e : Expr} {σ τ : Ty} (h : listElement? e s = .ok (some τ) s')
    (hreads : s.scope.Reads t F Γ) (htyped : HasType t B F Γ e σ) : Supplies t B F Γ e τ true := by
  -- The checker asks for a bare variable; no other expression has an element type.
  cases htyped with
  | @access node name v hstands hrecorded =>
    rw [listElement?_variable, EStateM.Result.ok.injEq, Option.bind_eq_some_iff] at h
    obtain ⟨⟨w, hfind, hlist⟩, -⟩ := h
    obtain rfl := eq_of_stands hreads hfind hstands
    split_ifs at hlist with hflag
    cases hlist
    exact .alias (.access hstands hrecorded) hstands hflag
  | literal | group | binary | element | call | list => cases h

/-- Checking a local's initial value. -/
theorem initial_of_declaredType {node : Node} {name : String} {value : Option Expr} {declared found aliased : Option Ty}
    {τ : Ty} {list : Bool} (h : declaredType node name value declared found aliased s = .ok (τ, list) s') :
    s' = s ∧ ((aliased = some τ ∧ list = true) ∨
      (list = false ∧ ∀ σ, found = some σ → τ = σ ∨ τ.accepts σ)) := by
  unfold declaredType at h
  -- A list without a type, a value against a type, a type alone, a value alone, and nothing at all.
  split at h
  · cases h
    exact ⟨rfl, Or.inl ⟨rfl, rfl⟩⟩
  · rename_i target σ _
    obtain ⟨_, s₁, hassignable, hrest⟩ := bind_eq_ok.mp h
    obtain ⟨haccepts, rfl⟩ := requireAssignable_eq_ok.mp hassignable
    cases hrest
    refine ⟨rfl, Or.inr ⟨rfl, fun σ hσ => Or.inr ?_⟩⟩
    cases hσ
    exact haccepts
  · cases h
    exact ⟨rfl, Or.inr ⟨rfl, nofun⟩⟩
  · cases h
    refine ⟨rfl, Or.inr ⟨rfl, fun σ hσ => Or.inl ?_⟩⟩
    cases hσ
    rfl
  · cases h

/-- The end of a declaration: a variable of the type that was found is defined. -/
theorem stays_of_declaredType {node : Node} {name : String} {value : Option Expr} {declared found aliased : Option Ty}
    {u : Unit} (hinner : s.scope.inner ≠ [])
    (h : (declaredType node name value declared found aliased >>= fun x => freshName name >>= fun runtimeName =>
      defineVariable node ⟨name, runtimeName, x.1, true, x.2⟩) s = .ok u s') :
    ∃ v : VariableInfo, v.name = name ∧ v.mutable = true ∧
      ((aliased = some v.type ∧ v.list = true) ∨
        (v.list = false ∧ ∀ σ, found = some σ → v.type = σ ∨ v.type.accepts σ)) ∧
      s.Stays [node.id] s' ∧ (t.Keeps s'.table → s.scope.Matches t F Γ → ∃ names outer, Γ = names :: outer ∧
        names.lookup name = none ∧ t.findVariable? node.id = some v ∧
        s'.scope.Matches t F (Γ.declare name node.id)) := by
  obtain ⟨⟨τ, list⟩, s₁, hdeclared, h₁⟩ := bind_eq_ok.mp h
  obtain ⟨rfl, htype⟩ := initial_of_declaredType hdeclared
  rw [freshName_bind] at h₁
  obtain ⟨hstays, hdefined⟩ := stays_of_defineVariable (s := { s₁ with locals := (s₁.locals.fresh name).2 })
    (t := t) (F := F) (Γ := Γ) hinner h₁
  refine ⟨⟨name, _, τ, true, list⟩, rfl, rfl, htype, ⟨hstays.inner, hstays.root, hstays.outer, hstays.returns,
    hstays.grows⟩, hdefined⟩

theorem checks_of_declaration {node : Node} {name : String} {type : Option String} {value : Option Expr} {u : Unit}
    (hinner : s.scope.inner ≠ []) (h : declaration node name type value s = .ok u s') :
    s.Stays (node.id :: Expr.optionIds value) s' ∧
      (t.Keeps s'.table → s.scope.Matches t F Γ → Expr.optionBindings Γ value ⊆ B → ∀ ρ,
        Checks t B F ρ Γ (.declaration node name type value) ∧ s'.scope.Matches t F (Γ.declare name node.id)) := by
  unfold declaration at h
  obtain ⟨declared, s₁, hresolve, h₁⟩ := bind_eq_ok.mp h
  obtain rfl := resolveType?_eq_ok hresolve
  -- Without a value, the type alone decides; with one, the value was checked before.
  cases value with
  | none =>
    obtain ⟨v, hname, hmutable, htype, hstays, hdefined⟩ :=
      stays_of_declaredType (t := t) (F := F) (Γ := Γ) hinner h₁
    refine ⟨hstays, fun hkeeps hmatches _ ρ => ?_⟩
    obtain ⟨names, outer, rfl, hfresh, hrecorded, hmatches'⟩ := hdefined hkeeps hmatches
    refine ⟨.declaration ?_ hfresh hrecorded hname hmutable, hmatches'⟩
    obtain ⟨hnone, -⟩ | ⟨hlist, -⟩ := htype
    · cases hnone
    · rw [hlist]
      exact .absent
  | some e =>
    obtain ⟨σ, s₂, hvalue, h₂⟩ := bind_eq_ok.mp h₁
    obtain ⟨aliased, s₃, helement, h₃⟩ := bind_eq_ok.mp h₂
    obtain rfl := listElement?_eq_ok helement
    obtain ⟨hproceeds, htyped⟩ := hasType_of_expression (t := t) (B := B) (F := F) (Γ := Γ) e hvalue
    have hinner₃ : s₃.scope.inner ≠ [] := hproceeds.scope ▸ hinner
    obtain ⟨v, hname, hmutable, htype, hstays, hdefined⟩ :=
      stays_of_declaredType (t := t) (F := F) (Γ := Γ) hinner₃ h₃
    refine ⟨((CheckerState.Stays.of_proceeds hinner hproceeds).trans hstays).perm List.perm_append_comm,
      fun hkeeps hmatches hbind ρ => ?_⟩
    have hmatches₃ : s₃.scope.Matches t F Γ := hproceeds.scope ▸ hmatches
    obtain ⟨names, outer, rfl, hfresh, hrecorded, hmatches'⟩ := hdefined hkeeps hmatches₃
    have he := htyped (hkeeps.of_grows hstays.grows) hmatches.reads hbind
    refine ⟨.declaration (.present ?_) hfresh hrecorded hname hmutable, hmatches'⟩
    -- Either the variable is a second name of a list, or it holds the value as it is.
    obtain ⟨rfl, hlist⟩ | ⟨hlist, hfits⟩ := htype
    · rw [hlist]
      exact supplies_of_listElement? helement hmatches₃.reads he
    · rw [hlist]
      exact .value he (hfits σ rfl)

theorem storable_eq_ok {target found : Ty} {targetElement valueElement : Option Ty} {offset : Nat} {u : Unit}
    (h : storable target found targetElement valueElement offset s = .ok u s') : s' = s ∧
      ((∃ τ, targetElement = some τ ∧ valueElement = some τ) ∨ (targetElement = none ∧ target.accepts found)) := by
  unfold storable at h
  -- Whole lists are stored into variables of the same element type only.
  cases targetElement with
  | none =>
    obtain ⟨haccepts, rfl⟩ := requireAssignable_eq_ok.mp h
    exact ⟨rfl, Or.inr ⟨rfl, haccepts⟩⟩
  | some τ =>
    cases valueElement with
    | none => cases h
    | some σ =>
      simp only at h
      split_ifs at h with heq
      · cases h
        exact ⟨rfl, Or.inl ⟨τ, rfl, congrArg some heq.symm⟩⟩
      · cases h

/-- The element type of a variable that the scope knows. -/
theorem listElement?_of_stands {node : Node} {name : String} {v : VariableInfo} {τ : Option Ty}
    (h : listElement? (.variable node name) s = .ok τ s') (hreads : s.scope.Reads t F Γ)
    (hfind : (s.scope.findVariable? name).isSome) (hstands : Stands t B Γ node name v) :
    τ = if v.list then some v.type else none := by
  obtain ⟨w, hw⟩ := Option.isSome_iff_exists.mp hfind
  obtain rfl := eq_of_stands hreads hw hstands
  rw [listElement?_variable, hw] at h
  cases h
  rfl

theorem isSome_of_expression_variable {node : Node} {name : String} {τ : Ty}
    (h : expression (.variable node name) s = .ok τ s') : (s.scope.findVariable? name).isSome := by
  obtain ⟨v, hfind, -⟩ := expression_variable_eq_ok h
  exact Option.isSome_iff_exists.mpr ⟨v, hfind⟩

theorem checks_of_assignment {offset : Nat} {receiver value : Expr} {u : Unit}
    (h : assignment offset receiver value s = .ok u s') :
    s.Proceeds (receiver.ids ++ value.ids) s' ∧
      (t.Keeps s'.table → s.scope.Reads t F Γ → receiver.bindings Γ ++ value.bindings Γ ⊆ B → ∀ ρ,
        Checks t B F ρ Γ (.assignment offset receiver value)) := by
  unfold assignment at h
  -- A receiver is a variable or an element; the checker refuses all else.
  split_ifs at h with hreceiver
  · obtain ⟨target, s₁, htarget, h₁⟩ := bind_eq_ok.mp h
    obtain ⟨found, s₂, hfound, h₂⟩ := bind_eq_ok.mp h₁
    obtain ⟨targetElement, s₃, htargetElement, h₃⟩ := bind_eq_ok.mp h₂
    obtain rfl := listElement?_eq_ok htargetElement
    obtain ⟨valueElement, s₄, hvalueElement, h₄⟩ := bind_eq_ok.mp h₃
    obtain rfl := listElement?_eq_ok hvalueElement
    obtain ⟨rfl, hstorable⟩ := storable_eq_ok h₄
    obtain ⟨hpr, htr⟩ := hasType_of_expression (t := t) (B := B) (F := F) (Γ := Γ) receiver htarget
    obtain ⟨hpv, htv⟩ := hasType_of_expression (t := t) (B := B) (F := F) (Γ := Γ) value hfound
    refine ⟨hpr.trans hpv, fun hkeeps hreads hbind ρ => ?_⟩
    obtain ⟨hbr, hbv⟩ := List.append_subset.mp hbind
    have hreads₁ : s₁.scope.Reads t F Γ := hpr.scope ▸ hreads
    have hreads₂ : s'.scope.Reads t F Γ := hpv.scope ▸ hreads₁
    have hvalue := htv hkeeps hreads₁ hbv
    have hreceiverTyped := htr (hkeeps.of_grows hpv.grows) hreads hbr
    cases hreceiverTyped with
    | @access node name v hstands hrecorded =>
      -- The receiver was looked up when it was checked, and the scope is still the same.
      have hknown : (s'.scope.findVariable? name).isSome := by
        rw [hpv.scope, hpr.scope]
        exact isSome_of_expression_variable htarget
      have helement := listElement?_of_stands htargetElement hreads₂ hknown hstands
      refine .assignVariable hstands ?_
      -- A list variable takes a list of its element type, another variable what its type accepts.
      cases hlist : v.list with
      | true =>
        rw [hlist, if_pos rfl] at helement
        obtain ⟨τ, htarget', hvalue'⟩ | ⟨hnone, -⟩ := hstorable
        · obtain rfl : v.type = τ := Option.some.inj (helement.symm.trans htarget')
          rw [hvalue'] at hvalueElement
          exact supplies_of_listElement? hvalueElement hreads₂ hvalue
        · rw [hnone] at helement
          cases helement
      | false =>
        rw [hlist] at helement
        obtain ⟨τ, htarget', -⟩ | ⟨-, haccepts⟩ := hstorable
        · rw [htarget'] at helement
          cases helement
        · rw [VariableInfo.readType, hlist] at haccepts
          exact .value hvalue (Or.inr haccepts)
    | @element node name index v hindex hstands hlist hrecorded =>
      cases htargetElement
      obtain ⟨τ, htarget', -⟩ | ⟨-, haccepts⟩ := hstorable
      · cases htarget'
      · exact .assignElement hindex hstands hlist hvalue haccepts
    | literal | group | binary | call | list => cases hreceiver
  · cases h

theorem hasType_of_condition {e : Expr} {u : Unit} (h : condition e s = .ok u s') : s.Proceeds e.ids s' ∧
    (t.Keeps s'.table → s.scope.Reads t F Γ → e.bindings Γ ⊆ B → HasType t B F Γ e .boolean) := by
  obtain ⟨σ, s₁, hexpression, h₁⟩ := bind_eq_ok.mp h
  obtain ⟨haccepts, rfl⟩ := requireAssignable_eq_ok.mp h₁
  obtain rfl := accepts_boolean_iff.mp haccepts
  exact hasType_of_expression e hexpression

theorem hasType_of_caseValue {value : Expr} {τ : Ty} {u : Unit} (h : caseValue τ (some value) s = .ok u s') :
    s.Proceeds value.ids s' ∧
      (t.Keeps s'.table → s.scope.Reads t F Γ → value.bindings Γ ⊆ B → HasType t B F Γ value τ) := by
  obtain ⟨σ, s₁, hexpression, h₁⟩ := bind_eq_ok.mp h
  split_ifs at h₁ with heq
  · cases h₁
    exact heq ▸ hasType_of_expression value hexpression
  · cases h₁

mutual

theorem checks_of_statement : ∀ (st : Statement) {Γ : Context} {s s' : CheckerState} {u : Unit},
    s.scope.inner ≠ [] → statement st s = .ok u s' →
    s.Stays st.ids s' ∧ (t.Keeps s'.table → s.scope.Matches t F Γ → st.bindings Γ ⊆ B →
      Checks t B F s.returns Γ st ∧ s'.scope.Matches t F (st.after Γ))
  | .expression offset e, Γ, s, s', u, hinner, h => by
    rw [statement] at h
    obtain ⟨τ, hexpression⟩ := discard_eq_ok.mp h
    obtain ⟨hproceeds, htyped⟩ := hasType_of_expression (t := t) (B := B) (F := F) (Γ := Γ) e hexpression
    refine ⟨.of_proceeds hinner hproceeds, fun hkeeps hmatches hbind => ?_⟩
    exact ⟨.expression (htyped hkeeps hmatches.reads hbind), hproceeds.scope ▸ hmatches⟩
  | .declaration node name type value, Γ, s, s', u, hinner, h => by
    rw [statement] at h
    obtain ⟨hstays, hchecks⟩ := checks_of_declaration (t := t) (B := B) (F := F) (Γ := Γ) hinner h
    exact ⟨hstays, fun hkeeps hmatches hbind => hchecks hkeeps hmatches hbind _⟩
  | .assignment offset receiver value, Γ, s, s', u, hinner, h => by
    rw [statement] at h
    obtain ⟨hproceeds, hchecks⟩ := checks_of_assignment (t := t) (B := B) (F := F) (Γ := Γ) h
    refine ⟨.of_proceeds hinner hproceeds, fun hkeeps hmatches hbind => ?_⟩
    exact ⟨hchecks hkeeps hmatches.reads hbind _, hproceeds.scope ▸ hmatches⟩
  | .conditional offset test onTrue onFalse, Γ, s, s', u, hinner, h => by
    rw [statement] at h
    obtain ⟨_, s₁, htest, h₁⟩ := bind_eq_ok.mp h
    obtain ⟨hpc, htc⟩ := hasType_of_condition (t := t) (B := B) (F := F) (Γ := Γ) htest
    -- The branch taken on true is a block with statements; the other one may be absent.
    by_cases hempty : onTrue.isEmpty = true
    · rw [if_pos hempty] at h₁
      cases h₁
    rw [if_neg hempty] at h₁
    obtain ⟨_, s₂, hthen, h₂⟩ := bind_eq_ok.mp h₁
    obtain ⟨hpt, htt⟩ := proceeds_of_inScope (t := t) (F := F) (Γ := Γ) hthen fun s₂ hbody =>
      checks_of_statements onTrue (List.cons_ne_nil _ _) hbody
    -- An absent branch opens no scope, and there is nothing to check in it.
    obtain ⟨hpe, hte⟩ : s₂.Proceeds (blockIds onFalse) s' ∧ (t.Keeps s'.table → s₂.scope.Matches t F Γ →
        blockBindings ([] :: Γ) onFalse ⊆ B → ChecksAll t B F s₂.returns ([] :: Γ) onFalse) := by
      cases onFalse with
      | nil =>
        cases h₂
        exact ⟨.refl _ _, fun _ _ _ => .nil⟩
      | cons first rest =>
        exact proceeds_of_inScope h₂ fun s₃ hbody =>
          checks_of_statements (first :: rest) (List.cons_ne_nil _ _) hbody
    have hproceeds := (hpc.trans hpt).trans hpe
    refine ⟨.of_proceeds hinner hproceeds, fun hkeeps hmatches hbind => ?_⟩
    obtain ⟨hbct, hbe⟩ := List.append_subset.mp hbind
    obtain ⟨hbc, hbt⟩ := List.append_subset.mp hbct
    have hkeeps₂ : t.Keeps s₂.table := hkeeps.of_grows hpe.grows
    have hmatches₁ : s₁.scope.Matches t F Γ := hpc.scope ▸ hmatches
    have hmatches₂ : s₂.scope.Matches t F Γ := hpt.scope ▸ hmatches₁
    refine ⟨.conditional (htc (hkeeps₂.of_grows hpt.grows) hmatches.reads hbc) ?_ ?_, hproceeds.scope ▸ hmatches⟩
    · exact hpc.returns ▸ htt hkeeps₂ hmatches₁ hbt
    · exact hpc.returns ▸ hpt.returns ▸ hte hkeeps hmatches₂ hbe
  | .switch offset subject arms, Γ, s, s', u, hinner, h => by
    rw [statement] at h
    obtain ⟨τ, s₁, hsubject, harms⟩ := bind_eq_ok.mp h
    obtain ⟨hps, hts⟩ := hasType_of_expression (t := t) (B := B) (F := F) (Γ := Γ) subject hsubject
    obtain ⟨hpa, hta⟩ := checks_of_cases arms harms (Γ := Γ)
    have hproceeds := hps.trans hpa
    refine ⟨.of_proceeds hinner hproceeds, fun hkeeps hmatches hbind => ?_⟩
    obtain ⟨hbs, hba⟩ := List.append_subset.mp hbind
    have hmatches₁ : s₁.scope.Matches t F Γ := hps.scope ▸ hmatches
    refine ⟨.switch (hts (hkeeps.of_grows hpa.grows) hmatches.reads hbs) ?_, hproceeds.scope ▸ hmatches⟩
    exact hps.returns ▸ hta hkeeps hmatches₁ hba
  | .loop offset test body, Γ, s, s', u, hinner, h => by
    rw [statement] at h
    obtain ⟨_, s₁, htest, h₁⟩ := bind_eq_ok.mp h
    obtain ⟨hpt, htt⟩ := hasType_of_condition (t := t) (B := B) (F := F) (Γ := Γ) htest
    obtain ⟨hpb, htb⟩ := proceeds_of_inScope (t := t) (F := F) (Γ := Γ) h₁ fun s₂ hbody =>
      checks_of_statements body (List.cons_ne_nil _ _) hbody
    have hproceeds := hpt.trans hpb
    refine ⟨.of_proceeds hinner hproceeds, fun hkeeps hmatches hbind => ?_⟩
    obtain ⟨hbt, hbb⟩ := List.append_subset.mp hbind
    have hmatches₁ : s₁.scope.Matches t F Γ := hpt.scope ▸ hmatches
    refine ⟨.loop (htt (hkeeps.of_grows hpb.grows) hmatches.reads hbt) ?_, hproceeds.scope ▸ hmatches⟩
    exact hpt.returns ▸ htb hkeeps hmatches₁ hbb
  | .returning offset value, Γ, s, s', u, hinner, h => by
    rw [statement] at h
    obtain ⟨σ, s₁, hvalue, h₁⟩ := bind_eq_ok.mp h
    obtain ⟨s₂, s₃, hget, h₂⟩ := bind_eq_ok.mp h₁
    -- The return type is read from the state of the checker.
    cases hget
    obtain ⟨haccepts, rfl⟩ := requireAssignable_eq_ok.mp h₂
    obtain ⟨hproceeds, htyped⟩ := hasType_of_expression (t := t) (B := B) (F := F) (Γ := Γ) value hvalue
    refine ⟨.of_proceeds hinner hproceeds, fun hkeeps hmatches hbind => ?_⟩
    exact ⟨.returning (htyped hkeeps hmatches.reads hbind) (hproceeds.returns ▸ haccepts), hproceeds.scope ▸ hmatches⟩

theorem checks_of_statements : ∀ (body : List Statement) {Γ : Context} {s s' : CheckerState} {u : Unit},
    s.scope.inner ≠ [] → statements body s = .ok u s' →
    s.Stays (blockIds body) s' ∧ (t.Keeps s'.table → s.scope.Matches t F Γ → blockBindings Γ body ⊆ B →
      ChecksAll t B F s.returns Γ body)
  | [], Γ, s, s', u, hinner, h => by
    cases h
    exact ⟨.of_proceeds hinner (.refl _ _), fun _ _ _ => .nil⟩
  | first :: rest, Γ, s, s', u, hinner, h => by
    rw [statements] at h
    obtain ⟨_, s₁, hfirst, hrest⟩ := bind_eq_ok.mp h
    obtain ⟨hsf, htf⟩ := checks_of_statement first hinner hfirst (Γ := Γ)
    -- The rest is checked in the context behind the first statement.
    obtain ⟨hsr, htr⟩ := checks_of_statements rest hsf.inner hrest (Γ := first.after Γ)
    refine ⟨hsf.trans hsr, fun hkeeps hmatches hbind => ?_⟩
    obtain ⟨hbf, hbr⟩ := List.append_subset.mp hbind
    obtain ⟨hchecks, hmatches₁⟩ := htf (hkeeps.of_grows hsr.grows) hmatches hbf
    exact .cons hchecks (hsf.returns ▸ htr hkeeps hmatches₁ hbr)

theorem checks_of_case : ∀ (arm : Case) {Γ : Context} {s s' : CheckerState} {u : Unit} {τ : Ty},
    case τ arm s = .ok u s' →
    s.Proceeds arm.ids s' ∧ (t.Keeps s'.table → s.scope.Matches t F Γ → arm.bindings Γ ⊆ B → ∀ rest,
      ChecksArms t B F s.returns Γ rest → ChecksArms t B F s.returns Γ (arm :: rest))
  | .mk offset value body, Γ, s, s', u, τ, h => by
    rw [case] at h
    -- The value of an arm is checked inside the scope of its body, before any declaration.
    cases value with
    | none =>
      obtain ⟨hproceeds, hbody⟩ := proceeds_of_inScope (t := t) (F := F) (Γ := Γ) h fun s₁ hrun =>
        checks_of_statements body (List.cons_ne_nil _ _) hrun
      exact ⟨hproceeds, fun hkeeps hmatches hbind rest hrest => .default (hbody hkeeps hmatches hbind) hrest⟩
    | some value =>
      obtain ⟨hproceeds, hbody⟩ := proceeds_of_inScope (t := t) (F := F) (Γ := Γ)
        (P := value.bindings Γ ++ blockBindings ([] :: Γ) body ⊆ B →
          HasType t B F Γ value τ ∧ ChecksAll t B F s.returns ([] :: Γ) body) h fun s₁ hrun => by
          obtain ⟨_, s₂, hvalue, hrest⟩ := bind_eq_ok.mp hrun
          obtain ⟨hpv, htv⟩ := hasType_of_caseValue (t := t) (B := B) (F := F) (Γ := Γ) hvalue
          have hsv := CheckerState.Stays.of_proceeds (List.cons_ne_nil _ _) hpv
          obtain ⟨hsb, htb⟩ := checks_of_statements body hsv.inner hrest (Γ := [] :: Γ)
          refine ⟨hsv.trans hsb, fun hkeeps hmatches hbind => ?_⟩
          obtain ⟨hbv, hbb⟩ := List.append_subset.mp hbind
          have hmatches₂ : s₂.scope.Matches t F ([] :: Γ) := hpv.scope ▸ hmatches
          refine ⟨htv (hkeeps.of_grows hsb.grows) hmatches.reads.of_open hbv, ?_⟩
          exact hpv.returns ▸ htb hkeeps hmatches₂ hbb
      refine ⟨hproceeds, fun hkeeps hmatches hbind rest hrest => ?_⟩
      obtain ⟨htyped, hchecks⟩ := hbody hkeeps hmatches hbind
      exact .valued htyped hchecks hrest

theorem checks_of_cases : ∀ (arms : List Case) {Γ : Context} {s s' : CheckerState} {u : Unit} {τ : Ty},
    cases τ arms s = .ok u s' →
    s.Proceeds (armIds arms) s' ∧ (t.Keeps s'.table → s.scope.Matches t F Γ → armBindings Γ arms ⊆ B →
      ChecksArms t B F s.returns Γ arms)
  | [], Γ, s, s', u, τ, h => by
    cases h
    exact ⟨.refl _ _, fun _ _ _ => .nil⟩
  | arm :: rest, Γ, s, s', u, τ, h => by
    rw [cases] at h
    obtain ⟨_, s₁, hfirst, hrest⟩ := bind_eq_ok.mp h
    obtain ⟨hpa, hta⟩ := checks_of_case arm hfirst (Γ := Γ)
    obtain ⟨hpr, htr⟩ := checks_of_cases rest hrest (Γ := Γ)
    refine ⟨hpa.trans hpr, fun hkeeps hmatches hbind => ?_⟩
    obtain ⟨hba, hbr⟩ := List.append_subset.mp hbind
    have hmatches₁ : s₁.scope.Matches t F Γ := hpa.scope ▸ hmatches
    exact hta (hkeeps.of_grows hpr.grows) hmatches hba rest (hpa.returns ▸ htr hkeeps hmatches₁ hbr)

end

end Checker

end BlockLang
