import BlockLang.Proofs.Java.Image
import BlockLang.Proofs.Typing.Walk

/-!
# The order of definitions

A function can be called from its own body and from the functions behind it, and from nowhere else: when a body is
checked, the root has the builtins, the functions before, and the function itself.  So a call in the body of the
function at one place selects the builtin or a function at that place or before it, and a call in the initial value of a
global selects the builtin.

## Main definitions

- `Function.parts`, `Global.parts`: all expressions of a function and of a global.
- `Selects`: an expression that is a call selects one of the given functions or the builtin.

## Main statements

- `selects_of_function`: the calls in a function select functions that are not behind it.
- `selects_of_global`: the calls in the value of a global select the builtin.
-/

namespace BlockLang

open Stateful

/-- All expressions of a function. -/
def Function.parts (f : Function) : List Expr :=
  (blockExpressions f.body).flatMap Expr.parts

/-- All expressions of a global. -/
def Global.parts (g : Global) : List Expr :=
  g.value.toList.flatMap Expr.parts

/-- If the expression is a call, the table has for it one of the given functions or the builtin, selected by the name
and the number of arguments. -/
def Selects (t : SideTable) (F : List Function) : Expr → Prop
  | .call node name arguments => ∃ info, t.findFunction? node.id = some info ∧ Callee t F name arguments.length info
  | _ => True

variable {t : SideTable} {B : List (Nat × Nat)} {F : List Function}

/-! ## §1 Calls in typed parts -/

theorem HaveTypes.typed {Γ : Context} {es : List Expr} {found : List Ty} (h : HaveTypes t B F Γ es found) :
    ∀ e ∈ es, ∃ τ, HasType t B F Γ e τ := by
  induction es generalizing found with
  | nil => exact List.forall_mem_nil _
  | cons e rest ih =>
    cases h with
    | cons hfirst hrest => exact List.forall_mem_cons.mpr ⟨⟨_, hfirst⟩, ih hrest⟩

theorem HasType.children {Γ : Context} (e : Expr) (h : ∃ τ, HasType t B F Γ e τ) :
    ∀ x ∈ e.children, ∃ τ, HasType t B F Γ x τ := by
  obtain ⟨τ, h⟩ := h
  cases h with
  | literal | access => exact List.forall_mem_nil _
  | group hinner => exact List.forall_mem_singleton.mpr ⟨_, hinner⟩
  | binary hleft hright => exact List.forall_mem_cons.mpr ⟨⟨_, hleft⟩, List.forall_mem_singleton.mpr ⟨_, hright⟩⟩
  | element hindex => exact List.forall_mem_singleton.mpr ⟨_, hindex⟩
  | call harguments => exact harguments.typed
  | list helements => exact helements.typed

/-- The calls in a typed expression select functions. -/
theorem HasType.selects {Γ : Context} {e : Expr} {τ : Ty} (h : HasType t B F Γ e τ) : ∀ x ∈ e.parts, Selects t F x := by
  intro x hx
  obtain ⟨σ, hσ⟩ := Expr.forall_mem_parts HasType.children e ⟨τ, h⟩ x hx
  cases hσ with
  | call _ hcallee _ hrecorded => exact ⟨_, hrecorded, hcallee⟩
  | literal | group | binary | access | element | list => trivial

theorem HaveTypes.selects {Γ : Context} {es : List Expr} {found : List Ty} (h : HaveTypes t B F Γ es found) :
    ∀ x ∈ es.flatMap Expr.parts, Selects t F x := by
  intro x hx
  obtain ⟨e, he, hpart⟩ := List.mem_flatMap.mp hx
  obtain ⟨τ, hτ⟩ := h.typed e he
  exact hτ.selects x hpart

theorem Supplies.selects {Γ : Context} {e : Expr} {τ : Ty} {list : Bool} (h : Supplies t B F Γ e τ list) :
    ∀ x ∈ e.parts, Selects t F x := by
  cases h with
  | value htype _ => exact htype.selects
  | «alias» htype _ _ => exact htype.selects

/-- All calls in some expressions select functions. -/
def SelectAll (t : SideTable) (F : List Function) (es : List Expr) : Prop :=
  ∀ e ∈ es, ∀ x ∈ e.parts, Selects t F x

theorem SelectAll.cons {e : Expr} {es : List Expr} (h : ∀ x ∈ e.parts, Selects t F x) (hes : SelectAll t F es) :
    SelectAll t F (e :: es) :=
  List.forall_mem_cons.mpr ⟨h, hes⟩

theorem SelectAll.append {es fs : List Expr} (hes : SelectAll t F es) (hfs : SelectAll t F fs) :
    SelectAll t F (es ++ fs) :=
  List.forall_mem_append.mpr ⟨hes, hfs⟩

theorem SelectAll.nil : SelectAll t F [] :=
  List.forall_mem_nil _

theorem Initial.selects {Γ : Context} {value : Option Expr} {τ : Ty} {list : Bool}
    (h : Initial t B F Γ value τ list) : SelectAll t F value.toList := by
  cases h with
  | absent => exact .nil
  | present hsupplies => exact .cons hsupplies.selects .nil

mutual

theorem selects_of_checks {ρ : Ty} {Γ : Context} : ∀ st : Statement, Checks t B F ρ Γ st → SelectAll t F st.expressions
  | .expression _ e, h => by
    cases h with
    | expression htype => exact .cons htype.selects .nil
  | .declaration node name type value, h => by
    cases h with
    | declaration hinitial => exact hinitial.selects
  | .assignment _ receiver value, h => by
    cases h with
    | assignVariable _ hvalue =>
      -- A variable that is assigned is not looked at, and calls nothing.
      exact .cons (List.forall_mem_singleton.mpr trivial) (.cons hvalue.selects .nil)
    | assignElement hindex _ _ hvalue =>
      exact .cons (List.forall_mem_cons.mpr ⟨trivial, hindex.selects⟩) (.cons hvalue.selects .nil)
  | .conditional _ condition onTrue onFalse, h => by
    cases h with
    | conditional hcondition htrue hfalse =>
      exact .cons hcondition.selects ((selects_of_checksAll onTrue htrue).append (selects_of_checksAll onFalse hfalse))
  | .switch _ subject cases, h => by
    cases h with
    | switch hsubject harms => exact .cons hsubject.selects (selects_of_checksArms cases harms)
  | .loop _ condition body, h => by
    cases h with
    | loop hcondition hbody => exact .cons hcondition.selects (selects_of_checksAll body hbody)
  | .returning _ value, h => by
    cases h with
    | returning hvalue => exact .cons hvalue.selects .nil

/-- The calls in statements that obey the rules select functions. -/
theorem selects_of_checksAll {ρ : Ty} {Γ : Context} :
    ∀ body : List Statement, ChecksAll t B F ρ Γ body → SelectAll t F (blockExpressions body)
  | [], _ => .nil
  | first :: rest, h => by
    cases h with
    | cons hfirst hrest => exact (selects_of_checks first hfirst).append (selects_of_checksAll rest hrest)

theorem selects_of_checksArms {ρ : Ty} {Γ : Context} :
    ∀ arms : List Case, ChecksArms t B F ρ Γ arms → SelectAll t F (armExpressions arms)
  | [], _ => .nil
  | .mk _ (some _) body :: rest, h => by
    cases h with
    | valued hvalue hbody hrest =>
      refine SelectAll.append (.append ?_ (selects_of_checksAll body hbody)) (selects_of_checksArms rest hrest)
      exact .cons hvalue.selects .nil
  | .mk _ none body :: rest, h => by
    cases h with
    | default hbody hrest => exact (selects_of_checksAll body hbody).append (selects_of_checksArms rest hrest)

end

theorem FunctionTyped.selects {names : Names} {f : Function} {info : FunctionInfo}
    (h : FunctionTyped t B F names f info) : ∀ x ∈ f.parts, Selects t F x := by
  intro x hx
  obtain ⟨e, he, hpart⟩ := List.mem_flatMap.mp hx
  exact selects_of_checksAll f.body h.body e he x hpart

theorem GlobalValue.selects {Γ : Context} {g : Global} {τ : Ty} (h : GlobalValue t B F Γ g.value τ) :
    ∀ x ∈ g.parts, Selects t F x := by
  unfold Global.parts
  cases hvalue : g.value with
  | none => exact List.forall_mem_nil _
  | some e =>
    rw [hvalue] at h
    rw [Option.toList_some, List.flatMap_singleton]
    cases h with
    | value _ htype _ => exact htype.selects
    | list helements _ _ =>
      rw [Expr.parts, Expr.allParts_eq]
      exact List.forall_mem_cons.mpr ⟨trivial, helements.selects⟩

/-! ## §2 Functions in order -/

/-- A function is checked with the functions before it, and with itself. -/
theorem Checker.functionsTyped_in_order {s s' : CheckerState} {before gs : List Function} (names : Names) {u : Unit}
    (hinner : s.scope.inner = []) (hkeys : (s.scope.root.funs.map Prod.fst).Nodup)
    (h : Checker.functions gs s = .ok u s') (hkeeps : t.Keeps s'.table) (hmatches : s.scope.Matches t before [names])
    (hbind : gs.flatMap (Function.bindings names) ⊆ B) :
    ∀ i f, gs[i]? = some f → ∃ info, FunctionTyped t B (before ++ gs.take (i + 1)) names f info := by
  -- The invariant: the functions that can be called are those before the rest.
  induction gs generalizing s before with
  | nil =>
    intro i f hi
    cases hi
  | cons g rest ih =>
    rw [Checker.functions] at h
    obtain ⟨_, s₁, hfunction, hrest⟩ := bind_eq_ok.mp h
    obtain ⟨hbg, hbr⟩ := List.append_subset.mp hbind
    obtain ⟨hsg, hfresh, hfuns, htg⟩ := functionTyped_of_function (t := t) (B := B) (F := before ++ [g]) names hinner
      (List.mem_append_right _ List.mem_cons_self) hfunction
    have hkeys₁ : (s₁.scope.root.funs.map Prod.fst).Nodup := by
      rw [hfuns, List.nodup_cons]
      exact ⟨lookup_eq_none_iff_notMem.mp hfresh, hkeys⟩
    obtain ⟨hsr, -, -⟩ := functionsTyped_of_functions (t := t) (B := B) (F := rest) names hsg.inner
      (List.Subset.refl _) hkeys₁ hrest
    obtain ⟨⟨info, hinfo, -⟩, hmatches₁⟩ := htg (hkeeps.of_grows hsr.grows)
      (hmatches.mono (List.subset_append_left _ _)) hbg
    intro i f hi
    cases i with
    | zero =>
      cases hi
      exact ⟨info, hinfo⟩
    | succ i =>
      obtain ⟨info', hinfo'⟩ := ih hsg.inner hkeys₁ hrest hmatches₁ hbr i f hi
      rw [List.append_assoc] at hinfo'
      exact ⟨info', hinfo'⟩

variable {p : Program}

/-- The calls in a function select the builtin or functions that are not behind it. -/
theorem selects_of_function (hcheck : check builtins p = .ok t) (hids : p.ids.Nodup) {i : Nat} {f : Function}
    (hf : p.functions[i]? = some f) : ∀ x ∈ f.parts, Selects t (p.functions.take (i + 1)) x := by
  obtain ⟨s₁, s₂, hfunctions, rfl, hkeeps, -, hinner, hkeys, hmatches⟩ := functions_of_check hcheck hids
  obtain ⟨-, hbind⟩ := List.append_subset.mp (List.Subset.refl p.bindings)
  obtain ⟨info, htyped⟩ := Checker.functionsTyped_in_order (globalNames p.globals) hinner
    (by rw [hkeys]; decide) hfunctions hkeeps hmatches hbind i f hf
  exact htyped.selects

theorem GlobalsTyped.selects {names : Names} {gs : List Global} (h : GlobalsTyped t B F names gs) :
    ∀ g ∈ gs, ∀ x ∈ g.parts, Selects t F x := by
  induction gs generalizing names with
  | nil => exact List.forall_mem_nil _
  | cons g rest ih =>
    cases h with
    | cons hvalue _ _ _ _ _ hrest => exact List.forall_mem_cons.mpr ⟨hvalue.selects, ih hrest⟩

/-- The calls in the value of a global select the builtin. -/
theorem selects_of_global (hcheck : check builtins p = .ok t) (hids : p.ids.Nodup) :
    ∀ g ∈ p.globals, ∀ x ∈ g.parts, Selects t [] x :=
  (programTyped_of_check hcheck hids).globals.selects

/-! ## §3 Programs without direct recursion -/

/-- The name and the number of arguments of a call. -/
def Expr.callee? : Expr → Option (String × Nat)
  | .call _ name arguments => some (name, arguments.length)
  | _ => none

/-- Some call in a function has the name of the function and as many arguments as it has parameters. -/
def Function.CallsItself (f : Function) : Prop :=
  ∃ x ∈ f.parts, x.callee? = some f.key

instance (f : Function) : Decidable f.CallsItself :=
  inferInstanceAs (Decidable (∃ x ∈ f.parts, x.callee? = some f.key))

/-- In a function that does not call itself, all calls select the builtin or functions before it. -/
theorem selects_before_function (hcheck : check builtins p = .ok t) (hids : p.ids.Nodup) {i : Nat} {f : Function}
    (hf : p.functions[i]? = some f) (hself : ¬ f.CallsItself) : ∀ x ∈ f.parts, Selects t (p.functions.take i) x := by
  intro x hx
  have hselects := selects_of_function hcheck hids hf x hx
  cases x with
  | call node name arguments =>
    obtain ⟨info, hrecorded, hbuiltin | ⟨g, hg, hname, harity, hinfo⟩⟩ := hselects
    · exact ⟨info, hrecorded, Or.inl hbuiltin⟩
    · refine ⟨info, hrecorded, Or.inr ⟨g, ?_, hname, harity, hinfo⟩⟩
      -- Of the functions up to this one, the last is this one.
      rw [List.take_add_one, hf, List.mem_append] at hg
      refine hg.resolve_right fun heq => ?_
      obtain rfl := List.mem_singleton.mp heq
      exact hself ⟨_, hx, by rw [Expr.callee?, Function.key, hname, harity]⟩
  | literal | group | binary | «variable» | element | list => trivial

end BlockLang
