import BlockLang.Proofs.Run.Steps

/-!
# Safety of checked programs

Every evaluator is safe on what the typing rules allow.  The proof is an induction on the fuel: expressions, calls,
statements and loops are safe with some fuel if all of them are with less.  Each form of expression and statement has
a lemma of its own that assumes no more of the evaluators than that.

## Main definitions

- `Evaluates`, `Calls`, `Executes`, `Loops`: safety of the four evaluators with some fuel.

## Main statement

- `everything`: they are safe with any fuel.
-/

namespace BlockLang

open Stateful

variable {t : SideTable} {p : Program} {funs : List ((String × Nat) × Callable)} {F : List Function} {G : Names}

/-! ## §1 What the rules promise -/

/-- The value with which a function ends, if it ends, conforms to its return type. -/
def Flow.Conforms (ρ : Ty) : Flow → Prop
  | .normal => True
  | .returned v => v.Conforms ρ

/-- An expression leaves all scopes as they are and yields a value that a variable of a static type may hold. -/
def World.Yields (w : World) (τ : Ty) (list : Bool) (v : Value) (w' : World) : Prop :=
  w'.origins = w.origins ∧ w'.Fits v τ list

/-- Every function that calls may name is found at runtime and obeys the rules. -/
def Serves (t : SideTable) (p : Program) (funs : List ((String × Nat) × Callable)) (F : List Function) (G : Names) :
    Prop :=
  ∀ name arity f, Callee t F name arity f →
    (funs.lookup (name, arity) = some (.builtin .print) ∧ name = "print" ∧ arity = 1 ∧ f = Builtin.print.info) ∨
      ∃ g ∈ p.functions, funs.lookup (name, arity) = some (.defined g (some .globals)) ∧ g.name = name ∧
        g.arity = arity ∧ FunctionTyped t p.bindings F G g f

section

variable (t : SideTable) (p : Program) (funs : List ((String × Nat) × Callable)) (F : List Function) (G : Names)

/-- A typed expression yields a value of its type. -/
def Evaluates (n : Nat) : Prop :=
  ∀ {w : World} {env : Env} {Γ : Context} {e : Expr} {τ : Ty}, Sees G w.origins env Γ → HasType t p.bindings F Γ e τ →
    Safe t p funs w (Traced.expression n env e) (w.Yields τ false)

/-- A call with arguments of the types of the parameters yields a value of the return type. -/
def Calls (n : Nat) : Prop :=
  ∀ {w : World} {env : Env} {Γ : Context} {name : String} {values : List Value} {offset : Nat} {f : FunctionInfo},
    Sees G w.origins env Γ → Callee t F name values.length f → List.Forall₂ Value.Conforms values f.parameters →
    Safe t p funs w (Traced.call n env name values offset) (w.Yields f.returns false)

/-- A statement that obeys the rules keeps all scopes around it and declares what it declares in the innermost. -/
def Executes (n : Nat) : Prop :=
  ∀ {ρ : Ty} {w : World} {base : Origins} {names : Names} {env : Env} {Δ : Context} {s : Statement},
    w.origins = base.push names → Sees G base env Δ → Checks t p.bindings F ρ (names :: Δ) s →
    Safe t p funs w (Traced.statement n (base.size :: env) s) fun flow w' =>
      (∃ names', w'.origins = base.push names' ∧ s.after (names :: Δ) = names' :: Δ) ∧ flow.Conforms ρ

/-- A loop that obeys the rules keeps all scopes around it. -/
def Loops (n : Nat) : Prop :=
  ∀ {ρ : Ty} {w : World} {env : Env} {Γ : Context} {condition : Expr} {body : List Statement},
    Sees G w.origins env Γ → HasType t p.bindings F Γ condition .boolean →
    ChecksAll t p.bindings F ρ ([] :: Γ) body →
    Safe t p funs w (Traced.loop n env condition body) fun flow w' => w'.origins = w.origins ∧ flow.Conforms ρ

end

variable {w : World} {env : Env} {Γ : Context} {n : Nat}

/-! ## §2 Expressions -/

/-- A typed access stands for a declaration. -/
theorem HasType.stands {e : Expr} {τ : Ty} (h : HasType t p.bindings F Γ e τ) (node : Node) (name : String)
    (haccess : e.access? = some (node, name)) : ∃ v, Stands t p.bindings Γ node name v := by
  cases h with
  | access hstands => cases haccess; exact ⟨_, hstands⟩
  | element _ hstands => cases haccess; exact ⟨_, hstands⟩
  | literal | group | binary | call | list => cases haccess

theorem HaveTypes.length_eq {es : List Expr} {found : List Ty} (h : HaveTypes t p.bindings F Γ es found) :
    found.length = es.length := by
  induction es generalizing found with
  | nil =>
    cases h
    rfl
  | cons e rest ih =>
    cases h with
    | cons _ hrest => rw [List.length_cons, List.length_cons, ih hrest]

theorem VariableInfo.conforms_readType {v : VariableInfo} {value : Value} (h : w.Fits value v.type v.list) :
    value.Conforms v.readType := by
  unfold VariableInfo.readType
  cases hlist : v.list with
  | true => exact .any value
  | false =>
    rw [hlist] at h
    exact h

namespace Safe

/-- The moment at which the evaluation of an expression begins. -/
theorem enters {e : Expr} (hsees : Sees G w.origins env Γ)
    (hstands : ∀ node name, e.access? = some (node, name) → ∃ v, Stands t p.bindings Γ node name v) :
    Safe t p funs w (Traced.note env (.enters e)) fun _ w' => w' = { w with last := some (.enters e) } := by
  -- A moment may say something about its value, the variable it accesses and the function it calls.
  refine note (fun r hr => ⟨hr.cellsConform, fun heq => ?_⟩) (fun r hr => ⟨fun haccess => ?_, fun heq => ?_⟩) rfl
  · cases heq
  · obtain ⟨v, hv⟩ := hstands _ _ haccess
    exact hr.findsVariable hsees hv _
  · cases heq

/-- The moment at which the evaluation of an expression ends. -/
theorem yields {e : Expr} {τ : Ty} {v : Value} {Q : Unit → World → Prop} (hτ : t.type? e.id = some τ)
    (hv : ¬ p.IsListInitializer e → v.Conforms τ) (hlist : p.IsListInitializer e → w.Fits v τ true)
    (hQ : Q () { w with last := some (.yields e v) }) : Safe t p funs w (Traced.note env (.yields e v)) Q := by
  -- Only the value matters here: the name was found when the evaluation began.
  refine note (fun r hr => ⟨hr.cellsConform, fun heq => ?_⟩) (fun r hr => ⟨fun haccess => ?_, fun heq => ?_⟩) hQ
  · cases heq
    exact ⟨τ, hτ, hv, fun hinit => hr.holds (hlist hinit)⟩
  · cases haccess
  · cases heq

/-- The moments around the evaluation of an expression other than a list. -/
theorem watched {e : Expr} {σ τ : Ty} {list : Bool} {body : Traced Value} (hsees : Sees G w.origins env Γ)
    (hstands : ∀ node name, e.access? = some (node, name) → ∃ v, Stands t p.bindings Γ node name v)
    (hτ : t.type? e.id = some τ) (he : e.isList = false) (hfits : ∀ v (w' : World), w'.Fits v σ list → v.Conforms τ)
    (hbody : Safe t p funs { w with last := some (.enters e) } body (w.Yields σ list)) :
    Safe t p funs w (Traced.watch env (.enters e) (.yields e) body) (w.Yields σ list) := by
  -- An expression with `isList = false` is no initialiser of a list, so its value conforms as it is.
  apply watch (enters hsees hstands) hbody
  intro v w' hv
  refine yields hτ (fun _ => hfits v w' hv.2) (fun hinit => ?_) hv
  exact absurd hinit.1 (by rw [he]; exact Bool.false_ne_true)

end Safe

/-- The value of an access fits the entry of the variable it stands for. -/
theorem safe_access {node : Node} {name : String} {v : VariableInfo} (hsees : Sees G w.origins env Γ)
    (hstands : Stands t p.bindings Γ node name v) (hτ : t.type? node.id = some v.readType) :
    Safe t p funs w (Traced.expression n env (.variable node name)) (w.Yields v.type v.list) := by
  -- Without fuel nothing happens; `Permitted` allows that at any moment.
  cases n with
  | zero => exact .stop fun _ => trivial
  | succ n =>
    unfold Traced.expression
    refine Safe.watched hsees (fun _ _ haccess => ?_) hτ rfl (fun _ _ => VariableInfo.conforms_readType) ?_
    · cases haccess
      -- The access that begins here is the one the hypothesis is about.
      exact ⟨v, hstands⟩
    · refine Safe.bind (Safe.resolve hsees hstands) fun found w' _ h => ?_
      obtain ⟨rfl, -, hfits⟩ := h
      exact .pure ⟨rfl, hfits⟩

/-- What supplies a variable yields a value that the variable may hold. -/
theorem safe_supplies {e : Expr} {τ : Ty} {list : Bool} (heval : Evaluates t p funs F G n)
    (hsees : Sees G w.origins env Γ) (h : Supplies t p.bindings F Γ e τ list) :
    Safe t p funs w (Traced.expression n env e) (w.Yields τ list) := by
  -- A value is evaluated as such; an alias of a list is read as a variable, whose list it shares.
  cases h with
  | value htype hfits => exact (heval hsees htype).mono fun v w' _ hv => ⟨hv.1, hv.2.of_fits hfits⟩
  | @«alias» node name v htype hstands hlist =>
    have haccess : Safe t p funs w (Traced.expression n env (.variable node name)) (w.Yields v.type v.list) :=
      safe_access hsees hstands htype.recorded
    rw [hlist] at haccess
    exact haccess

/-- Typed expressions yield values of their types. -/
theorem safe_all (heval : Evaluates t p funs F G n) {es : List Expr} {found : List Ty} (hsees : Sees G w.origins env Γ)
    (h : HaveTypes t p.bindings F Γ es found) :
    Safe t p funs w (Traced.all (Traced.expression n env) es) fun values w' =>
      w'.origins = w.origins ∧ List.Forall₂ Value.Conforms values found := by
  -- The world changes from item to item, so the induction is over all worlds.
  induction es generalizing w found with
  | nil =>
    cases h
    exact .pure ⟨rfl, .nil⟩
  | cons e rest ih =>
    cases h with
    | cons htype hrest =>
      apply Safe.bind (heval hsees htype)
      intro v w₁ _ hv
      have hsees₁ : Sees G w₁.origins env Γ := hv.1 ▸ hsees
      apply Safe.bind (ih hsees₁ hrest)
      intro values w₂ _ hvalues
      exact .pure ⟨hvalues.1.trans hv.1, .cons hv.2 hvalues.2⟩

/-- A binary expression yields a value of the type that its operator gives for the types of its operands. -/
theorem safe_binary (heval : Evaluates t p funs F G n) {op : Operator} {left right : Expr} {a b τ : Ty} {offset : Nat}
    (hsees : Sees G w.origins env Γ) (hleft : HasType t p.bindings F Γ left a)
    (hright : HasType t p.bindings F Γ right b) (hτ : Ty.ofBinary? op a b = some τ) :
    Safe t p funs w (Traced.binary (Traced.expression n env) op left right offset) (w.Yields τ false) := by
  unfold Traced.binary
  apply Safe.bind (heval hsees hleft)
  intro l w₁ _ hl
  have hsees₁ : Sees G w₁.origins env Γ := hl.1 ▸ hsees
  split
  next hop =>
    -- `AND` and `OR` may stop after the left operand, so the right one is evaluated in one branch alone.
    have hlogic : a = .boolean ∧ b = .boolean ∧ τ = .boolean := by
      obtain rfl | rfl := hop <;>
      · obtain ⟨⟨ha, hb⟩, heq⟩ := Option.ite_none_right_eq_some.mp hτ
        exact ⟨ha, hb, (Option.some.inj heq).symm⟩
    obtain ⟨rfl, rfl, rfl⟩ := hlogic
    apply Safe.bind (Safe.ofExcept (Value.asBoolean_meets hl.2))
    intro decided w₂ _ h
    obtain ⟨rfl, -⟩ := h
    split
    -- The left operand decides and is the value.
    next => exact .pure hl
    next =>
      apply Safe.bind (heval hsees₁ hright)
      intro r w₃ _ hr
      apply (Safe.ofExcept (Operation.logic_meets hop hl.2 hr.2)).mono
      intro v w₄ _ hv
      obtain ⟨rfl, hv⟩ := hv
      exact ⟨hr.1.trans hl.1, hv⟩
  next =>
    apply Safe.bind (heval hsees₁ hright)
    intro r w₂ _ hr
    apply Safe.bind Safe.get
    intro s w₃ _ h
    obtain ⟨rfl, -⟩ := h
    apply (Safe.ofExcept (Operation.binary_meets hτ hl.2 hr.2)).mono
    intro v w₄ _ hv
    obtain ⟨rfl, hv⟩ := hv
    exact ⟨hr.1.trans hl.1, hv⟩

section Elements

variable {α : Type} {Q : α → World → Prop} {offset : Nat}

/-- What a variable with the list flag holds is a list of its type. -/
theorem Safe.list_bind {ref : VariableRef} {v : VariableInfo} (href : RefersTo t w ref v) (hlist : v.list = true)
    {f : ListRef → Traced α} (hf : ∀ list, w.lists[list]? = some v.type → Safe t p funs w (f list) Q) :
    Safe t p funs w (do
      let held ← Traced.lift (Eval.valueOf ref)
      let list ← Traced.lift (Eval.ofExcept (held.asList offset))
      f list) Q := by
  apply Safe.bind (Safe.valueOf href)
  intro held w₁ _ h
  obtain ⟨rfl, hheld⟩ := h
  rw [hlist] at hheld
  obtain ⟨list, rfl, hτ⟩ := hheld
  refine Safe.bind (Safe.ofExcept (P := fun ref => ref = list) rfl) fun ref w₂ _ h => ?_
  obtain ⟨rfl, rfl⟩ := h
  exact hf ref hτ

/-- An integer serves as an index once it is in range. -/
theorem Safe.index_bind {position : Value} {length : Nat} (hposition : position.Conforms .integer) {f : Nat → Traced α}
    (hf : ∀ i, i < length → Safe t p funs w (f i) Q) :
    Safe t p funs w (do
      let n ← Traced.lift (Eval.ofExcept (position.asInteger offset))
      let i ← Traced.lift (Eval.ofExcept (Value.checkedIndex n length offset))
      f i) Q := by
  apply Safe.bind (Safe.ofExcept (Value.asInteger_meets hposition))
  intro n w₁ _ h
  obtain ⟨rfl, -⟩ := h
  apply Safe.bind (Safe.ofExcept Value.checkedIndex_meets)
  intro i w₂ _ h
  obtain ⟨rfl, hi⟩ := h
  exact hf i hi

end Elements

/-- An element of a list has the type of the elements of that list. -/
theorem safe_element (heval : Evaluates t p funs F G n) {node : Node} {name : String} {index : Expr} {v : VariableInfo}
    {offset : Nat} (hsees : Sees G w.origins env Γ) (hindex : HasType t p.bindings F Γ index .integer)
    (hstands : Stands t p.bindings Γ node name v) (hlist : v.list = true) :
    Safe t p funs w (Traced.element (Traced.expression n env) env name index offset) (w.Yields v.type false) := by
  unfold Traced.element
  apply Safe.bind (Safe.resolve hsees hstands)
  intro found w₁ _ h
  obtain ⟨rfl, href, -⟩ := h
  apply Safe.bind (heval hsees hindex)
  intro position w₂ _ hposition
  -- The variable is read only now; the index may have changed what it holds, but not to what it refers.
  refine Safe.list_bind (href.later hposition.1) hlist fun list hτ => ?_
  apply Safe.bind Safe.get
  intro s w₃ _ h
  obtain ⟨rfl, r, hr, rfl⟩ := h
  refine Safe.index_bind hposition.2 fun k hk => ?_
  refine .pure ⟨hposition.1, hr.elements hτ _ ?_⟩
  rw [List.getD_eq_getElem?_getD, List.getElem?_eq_getElem hk, Option.getD_some]
  exact List.getElem_mem hk

/-- A list written element by element, apart from the moments around it. -/
theorem safe_list (heval : Evaluates t p funs F G n) {items : List Expr} {found : List Ty} {τ : Ty}
    (hsees : Sees G w.origins env Γ) (hitems : HaveTypes t p.bindings F Γ items found)
    (hfound : ∀ σ ∈ found, Ty.accepts τ σ) :
    Safe t p funs w (do
      let values ← Traced.all (Traced.expression n env) items
      Traced.lift (Eval.newList values)) (w.Yields τ true) := by
  apply Safe.bind (safe_all heval hsees hitems)
  intro values w₁ _ hvalues
  refine (Safe.newList fun v hv => ?_).mono fun v w₂ _ h => ⟨h.1.trans hvalues.1, h.2⟩
  -- Each element conforms to its own type, which the type of the list accepts.
  obtain ⟨σ, hσ, hconforms⟩ := exists_of_mem_left hvalues.2 hv
  exact hconforms.of_accepts (hfound σ hσ)

/-- The moments around the evaluation of a list. -/
theorem safe_list_watched (heval : Evaluates t p funs F G n) {node : Node} {items : List Expr} {found : List Ty}
    {τ : Ty} (hsees : Sees G w.origins env Γ) (hitems : HaveTypes t p.bindings F Γ items found)
    (hfound : ∀ σ ∈ found, Ty.accepts τ σ) (hτ : t.type? node.id = some τ)
    (hany : p.IsListInitializer (.list node items) ∨ τ = .any) :
    Safe t p funs w (Traced.expression (n + 1) env (.list node items)) (w.Yields τ true) := by
  unfold Traced.expression
  have hsees' : Sees G { w with last := some (.enters (.list node items)) }.origins env Γ := hsees
  refine Safe.watch (Safe.enters hsees fun _ _ haccess => ?_) (safe_list heval hsees' hitems hfound)
    fun v w' hv => ?_
  · cases haccess
  · refine Safe.yields hτ (fun hinit => ?_) (fun _ => hv.2) hv
    -- A list elsewhere has type `Any`, to which everything conforms.
    rw [hany.resolve_left hinit]
    exact .any v

/-- The moment at which a call looks its function up. -/
theorem Safe.calls (hserves : Serves t p funs F G) {node : Node} {name : String} {arity : Nat} {f : FunctionInfo}
    (hsees : Sees G w.origins env Γ) (hcallee : Callee t F name arity f) (hf : t.findFunction? node.id = some f) :
    Safe t p funs w (Traced.note env (.calls node name arity)) fun _ w' =>
      w' = { w with last := some (.calls node name arity) } := by
  refine note (fun r hr => ⟨hr.cellsConform, fun heq => ?_⟩) (fun r hr => ⟨fun haccess => ?_, fun heq => ?_⟩) rfl
  · cases heq
  · cases haccess
  · cases heq
    have hfound := hr.findFunction? hsees name arity
    -- Either the builtin or a function of the program; both are in the table under the id of the call.
    obtain ⟨hlookup, hprint⟩ | ⟨g, hg, hlookup, hname, harity, htyped⟩ := hserves name arity f hcallee
    · exact ⟨_, f, hfound.trans hlookup, hf, Or.inl ⟨rfl, hprint⟩⟩
    · exact ⟨_, f, hfound.trans hlookup, hf, Or.inr ⟨g, hg, rfl, hname, harity, htyped.recorded⟩⟩

/-- Arguments of types that the parameters accept conform to the types of the parameters. -/
theorem conform_of_accepts {values : List Value} {found targets : List Ty}
    (hvalues : List.Forall₂ Value.Conforms values found)
    (haccepts : List.Forall₂ (fun target source => Ty.accepts target source) targets found) :
    List.Forall₂ Value.Conforms values targets := by
  induction hvalues generalizing targets with
  | nil =>
    cases haccepts
    exact .nil
  | cons hv _ ih =>
    cases haccepts with
    | cons ha hrest => exact .cons (hv.of_accepts ha) (ih hrest)

/-- Expressions are safe with more fuel if expressions and calls are safe with less. -/
theorem evaluates_succ (hserves : Serves t p funs F G) (heval : Evaluates t p funs F G n)
    (hcalls : Calls t p funs F G n) : Evaluates t p funs F G (n + 1) := by
  intro w env Γ e τ hsees h
  have hsees' : Sees G { w with last := some (.enters e) }.origins env Γ := hsees
  -- One case for each typing rule; each uses what is known of the evaluators with less fuel.
  cases h with
  | @literal node value hτ =>
    unfold Traced.expression
    exact Safe.watched hsees (HasType.stands (F := F) (.literal hτ)) hτ rfl (fun _ _ h => h)
      (.pure ⟨rfl, Value.Conforms.ofLiteral value⟩)
  | group hinner hτ =>
    unfold Traced.expression
    exact Safe.watched hsees (HasType.group hinner hτ).stands hτ rfl (fun _ _ h => h) (heval hsees' hinner)
  | binary hleft hright hop hτ =>
    unfold Traced.expression
    exact Safe.watched hsees (HasType.binary hleft hright hop hτ).stands hτ rfl (fun _ _ h => h)
      (safe_binary heval hsees' hleft hright hop)
  | access hstands hτ =>
    exact (safe_access hsees hstands hτ).mono fun v w' _ hv => ⟨hv.1, VariableInfo.conforms_readType hv.2⟩
  | element hindex hstands hlist hτ =>
    unfold Traced.expression
    exact Safe.watched hsees (HasType.element hindex hstands hlist hτ).stands hτ rfl (fun _ _ h => h)
      (safe_element heval hsees' hindex hstands hlist)
  | @call node name arguments found f harguments hcallee haccepts hf hτ =>
    unfold Traced.expression
    refine Safe.watched hsees (HasType.call harguments hcallee haccepts hf hτ).stands hτ rfl (fun _ _ h => h) ?_
    apply Safe.bind (safe_all heval hsees' harguments)
    intro values w₁ _ hvalues
    have hsees₁ : Sees G w₁.origins env Γ := hvalues.1 ▸ hsees
    have hconform := conform_of_accepts hvalues.2 haccepts
    -- The callee was found by the number of arguments written; it is called with as many values.
    rw [← harguments.length_eq, ← hvalues.2.length_eq] at hcallee
    apply Safe.bind (Safe.calls hserves hsees₁ hcallee hf)
    intro _ w₂ _ h
    subst h
    have hsees₂ : Sees G { w₁ with last := some (.calls node name values.length) }.origins env Γ := hsees₁
    exact (hcalls hsees₂ hcallee hconform).mono fun v w₃ _ hv => ⟨hv.1.trans hvalues.1, hv.2⟩
  | @list node items found hitems hτ =>
    apply (safe_list_watched heval hsees hitems (fun _ _ => rfl) hτ (Or.inr rfl)).mono
    intro v w' _ hv
    exact ⟨hv.1, .any v⟩

/-! ## §3 Parts of statements -/

/-- What initialises a local yields a value that the local may hold. -/
theorem safe_optional (heval : Evaluates t p funs F G n) {value : Option Expr} {τ : Ty} {list : Bool}
    (hsees : Sees G w.origins env Γ) (h : Initial t p.bindings F Γ value τ list) :
    Safe t p funs w (Traced.optional (Traced.expression n env) value) (w.Yields τ list) := by
  cases h with
  | absent => exact .pure ⟨rfl, .nil τ⟩
  | present hsupplies => exact safe_supplies heval hsees hsupplies

/-- Storing an element keeps all elements of the list of one type. -/
theorem safe_storeElement (heval : Evaluates t p funs F G n) {ref : VariableRef} {index value receiver : Expr}
    {v : VariableInfo} {σ : Ty} {offset : Nat} (hsees : Sees G w.origins env Γ) (href : RefersTo t w ref v)
    (hlist : v.list = true) (hindex : HasType t p.bindings F Γ index .integer)
    (hvalue : HasType t p.bindings F Γ value σ) (haccepts : v.type.accepts σ) :
    Safe t p funs w (Traced.storeElement (Traced.expression n env) ref index value receiver offset)
      fun _ w' => w'.origins = w.origins := by
  unfold Traced.storeElement
  apply Safe.bind (heval hsees hindex)
  intro position w₁ _ hposition
  have hsees₁ : Sees G w₁.origins env Γ := hposition.1 ▸ hsees
  apply Safe.bind (heval hsees₁ hvalue)
  intro stored w₂ _ hstored
  have horigins : w₂.origins = w.origins := hstored.1.trans hposition.1
  refine Safe.list_bind (href.later horigins) hlist fun list hτ => ?_
  apply Safe.bind Safe.get
  intro s w₃ _ h
  obtain ⟨rfl, -⟩ := h
  simp only
  split
  -- A value that would contain its own list is refused, which is no fault of types.
  next => exact .fail trivial
  next =>
    refine Safe.index_bind hposition.2 fun k _ => ?_
    apply (Safe.setElement hτ (hstored.2.of_accepts haccepts)).mono
    intro _ w₄ _ h
    rw [h, horigins]

/-- An assignment that obeys the rules fails only for an immutable global, and right after the moment at which it
began. -/
theorem safe_assign (heval : Evaluates t p funs F G n) {ρ : Ty} {offset : Nat} {target value : Expr}
    (hsees : Sees G w.origins env Γ) (h : Checks t p.bindings F ρ Γ (.assignment offset target value))
    (hlast : w.last = some (.begins (.assignment offset target value))) :
    Safe t p funs w (Traced.assign (Traced.expression n env) env target value offset)
      fun _ w' => w'.origins = w.origins := by
  unfold Traced.assign
  -- A variable gets what supplies it, a list as a whole or a value; an element gets a value.
  cases h with
  | assignVariable hstands hsupplies =>
    apply Safe.bind (Safe.receiver hsees hstands hlast rfl)
    intro ref w₁ _ h
    obtain ⟨rfl, href⟩ := h
    apply Safe.bind (safe_supplies heval hsees hsupplies)
    intro v w₂ _ hv
    apply (Safe.setValue (href.later hv.1) hv.2).mono
    intro _ w₃ _ h
    rw [h, hv.1]
  | assignElement hindex hstands hlist hvalue haccepts =>
    apply Safe.bind (Safe.receiver hsees hstands hlast rfl)
    intro ref w₁ _ h
    obtain ⟨rfl, href⟩ := h
    exact safe_storeElement heval hsees href hlist hindex hvalue haccepts

/-- The statements that a switch selects are those of one of its arms. -/
theorem safe_select (heval : Evaluates t p funs F G n) {ρ : Ty} {subject : Value} {fallback : Option (List Statement)}
    {cases : List Case} (hsees : Sees G w.origins env Γ) (h : ChecksArms t p.bindings F ρ Γ cases)
    (hfallback : ∀ body, fallback = some body → ChecksAll t p.bindings F ρ ([] :: Γ) body) :
    Safe t p funs w (Traced.select (Traced.expression n env) subject fallback cases) fun selected w' =>
      w'.origins = w.origins ∧ ∀ body, selected = some body → ChecksAll t p.bindings F ρ ([] :: Γ) body := by
  -- The fallback is part of the state: the body of the default arm that was passed, if any.
  induction cases generalizing w fallback with
  | nil => exact .pure ⟨rfl, hfallback⟩
  | cons arm rest ih =>
    cases h with
    | valued hvalue hbody hrest =>
      apply Safe.bind (heval hsees hvalue)
      intro v w₁ _ hv
      have hsees₁ : Sees G w₁.origins env Γ := hv.1 ▸ hsees
      apply Safe.bind Safe.get
      intro s w₂ _ h
      obtain ⟨rfl, -⟩ := h
      split
      next =>
        refine .pure ⟨hv.1, fun body' heq => ?_⟩
        cases heq
        exact hbody
      next =>
        apply (ih hsees₁ hrest hfallback).mono
        intro selected w₃ _ hselected
        exact ⟨hselected.1.trans hv.1, hselected.2⟩
    | default hbody hrest =>
      apply ih hsees hrest
      intro body' heq
      cases fallback with
      | some first => exact hfallback body' heq
      | none =>
        cases heq
        exact hbody

/-- Statements in order keep all scopes around them. -/
theorem safe_inOrder (hexec : Executes t p funs F G n) {ρ : Ty} {base : Origins} {names : Names} {Δ : Context}
    {body : List Statement} (horigins : w.origins = base.push names) (hsees : Sees G base env Δ)
    (h : ChecksAll t p.bindings F ρ (names :: Δ) body) :
    Safe t p funs w (Traced.inOrder (Traced.statement n (base.size :: env)) body) fun flow w' =>
      (∃ names', w'.origins = base.push names') ∧ flow.Conforms ρ := by
  -- Declarations add names to the scope of the block while the statements are executed.
  induction body generalizing w names with
  | nil => exact .pure ⟨⟨names, horigins⟩, trivial⟩
  | cons first rest ih =>
    cases h with
    | cons hfirst hrest =>
      apply Safe.bind (hexec horigins hsees hfirst)
      intro flow w₁ _ h
      obtain ⟨⟨names₁, horigins₁, hafter⟩, hflow⟩ := h
      cases flow with
      | returned v => exact .pure ⟨⟨names₁, horigins₁⟩, hflow⟩
      | normal =>
        -- The names that the rest is checked with are the names that exist now.
        rw [hafter] at hrest
        exact ih horigins₁ hrest

/-- A block keeps all scopes around it. -/
theorem safe_block (hexec : Executes t p funs F G n) {ρ : Ty} {body : List Statement} (hsees : Sees G w.origins env Γ)
    (h : ChecksAll t p.bindings F ρ ([] :: Γ) body) :
    Safe t p funs w (Traced.block (Traced.statement n) env body) fun flow w' =>
      w'.origins = w.origins ∧ flow.Conforms ρ := by
  -- A block opens one scope, and the rules open one context frame for it.
  apply Safe.inScope hsees.size_ne_zero
  exact (safe_inOrder hexec (w := { w with origins := w.origins.push [] }) rfl hsees h).mono
    fun flow w' _ hw' => ⟨hw'.1, rfl, hw'.2⟩

/-! ## §4 Calls -/

/-- A mutable variable agrees with its entry if its value fits. -/
theorem cellOf_of_mutable {v : VariableInfo} {value : Value} {d : Nat} (hv : t.findVariable? d = some v)
    (hmutable : v.mutable = true) (hfits : w.Fits value v.type v.list) : CellOf t p w ⟨true, value⟩ d := by
  refine ⟨v, hv, hmutable.symm, hfits, fun hfalse => ?_⟩
  rw [hmutable] at hfalse
  cases hfalse

/-- Parameters are declared in the scope of the body, the last one latest. -/
theorem safe_bindParameters {base : Origins} {names : Names} {ps : List Parameter} {values : List Value}
    {types : List Ty} (horigins : w.origins = base.push names) (hps : List.Forall₂ (ParameterTyped t) ps types)
    (hvalues : List.Forall₂ Value.Conforms values types) (hdistinct : (ps.map Parameter.name).Nodup)
    (hnew : ∀ q ∈ ps, names.lookup q.name = none) :
    Safe t p funs w (Traced.bindParameters (base.size :: env) ps values) fun _ w' =>
      w'.origins = base.push (parameterNames ps ++ names) := by
  -- The invariant: names declared so far, newest first, on top of what was there.
  induction hps generalizing w values names with
  | nil => exact .pure horigins
  | @cons q τ ps types hq _ ih =>
    cases hvalues with
    | @cons value _ values _ hvalue hvalues =>
      obtain ⟨v, hv, -, rfl, hmutable, hlist⟩ := hq
      rw [List.map_cons, List.nodup_cons] at hdistinct
      have hfits : w.Fits value v.type v.list := by rw [hlist]; exact hvalue
      -- Later parameters are still new, because parameters have distinct names.
      have hdeclared : ∀ q' ∈ ps, List.lookup q'.name ((q.name, q.node.id) :: names) = none := by
        intro q' hq'
        have hne : (q'.name == q.name) = false := by
          rw [beq_eq_false_iff_ne]
          intro heq
          exact hdistinct.1 (heq ▸ List.mem_map_of_mem hq')
        rw [List.lookup_cons, hne]
        exact hnew q' (List.mem_cons_of_mem _ hq')
      unfold Traced.bindParameters
      refine Safe.bind (P := fun _ w' => w'.origins = base.push ((q.name, q.node.id) :: names)) ?_ fun _ w₁ _ h => ?_
      · exact .define rfl horigins (hnew q List.mem_cons_self) (cellOf_of_mutable hv hmutable hfits) rfl
      · apply (ih h hvalues hdistinct.2 hdeclared).mono
        intro _ w₂ _ h₂
        rw [h₂, parameterNames, parameterNames, List.map_cons, List.reverse_cons, List.append_assoc]
        rfl

/-- The body of a function sees its parameters and the globals, wherever it is called from. -/
theorem safe_body (hexec : Executes t p funs F G n) {g : Function} {f : FunctionInfo} {values : List Value}
    (hglobals : w.origins[0]? = some G) (hg : FunctionTyped t p.bindings F G g f)
    (hvalues : List.Forall₂ Value.Conforms values f.parameters) :
    Safe t p funs w (Traced.inScope .globals fun inner => do
      Traced.bindParameters inner g.parameters values
      match ← Traced.inOrder (Traced.statement n inner) g.body with
      | .returned v => return v
      | .normal => return .nil) (w.Yields f.returns false) := by
  -- The closure of a function is the outermost scope, so the body sees globals only.
  have hsees : Sees G w.origins .globals [G] := .ofGlobals hglobals
  apply Safe.inScope hsees.size_ne_zero
  have hopened : ({ w with origins := w.origins.push [] } : World).origins = w.origins.push [] := rfl
  apply Safe.bind (safe_bindParameters hopened hg.parameters hvalues hg.distinct fun _ _ => rfl)
  intro _ w₁ _ h
  rw [List.append_nil] at h
  apply Safe.bind (safe_inOrder hexec h hsees hg.body)
  intro flow w₂ _ hflow
  obtain ⟨hnames, hflow⟩ := hflow
  -- Falling off the end yields `Nil`, which conforms to any return type.
  cases flow with
  | returned v => exact .pure ⟨hnames, rfl, hflow⟩
  | normal => exact .pure ⟨hnames, rfl, .nil _⟩

/-- Calls are safe with more fuel if statements are safe with less. -/
theorem calls_succ (hserves : Serves t p funs F G) (hexec : Executes t p funs F G n) :
    Calls t p funs F G (n + 1) := by
  intro w env Γ name values offset f hsees hcallee hvalues
  unfold Traced.call
  apply Safe.bind Safe.get
  intro s w₁ _ h
  obtain ⟨rfl, r, hr, rfl⟩ := h
  -- Wherever the call stands, its function is looked up among the globals.
  rw [hr.findFunction? hsees]
  obtain ⟨hlookup, -, harity, rfl⟩ | ⟨g, -, hlookup, -, -, hg⟩ := hserves name values.length f hcallee
  · rw [hlookup]
    obtain ⟨v, rfl⟩ := List.length_eq_one_iff.mp harity
    exact Safe.print.mono fun v w₂ _ h => ⟨by rw [h.1], h.2 ▸ .nil _⟩
  · rw [hlookup]
    exact safe_body hexec hsees.globals hg hvalues

/-! ## §5 Statements -/

/-- What an assignment changes stands for a declaration. -/
theorem Checks.stands {ρ : Ty} {s : Statement} (h : Checks t p.bindings F ρ Γ s) (node : Node) (name : String)
    (haccess : (Event.begins s).access? = some (node, name)) : ∃ v, Stands t p.bindings Γ node name v := by
  cases h with
  | assignVariable hstands => cases haccess; exact ⟨_, hstands⟩
  | assignElement _ hstands => cases haccess; exact ⟨_, hstands⟩
  | expression | declaration | conditional | switch | loop | returning => cases haccess

/-- The moments around the execution of a statement. -/
theorem Safe.executed {ρ : Ty} {s : Statement} {body : Traced Flow} {P : Flow → World → Prop}
    (hsees : Sees G w.origins env Γ) (h : Checks t p.bindings F ρ Γ s)
    (hP : ∀ flow w' last, P flow w' → P flow { w' with last := last })
    (hbody : Safe t p funs { w with last := some (.begins s) } body P) :
    Safe t p funs w (Traced.watch env (.begins s) (.ends s) body) P := by
  -- The moment at the beginning may access a variable; the one at the end says nothing.
  refine watch ?_ hbody fun flow w' hflow => ?_
  · refine note (fun r hr => ⟨hr.cellsConform, fun heq => ?_⟩) (fun r hr => ⟨fun haccess => ?_, fun heq => ?_⟩) rfl
    · cases heq
    · obtain ⟨v, hv⟩ := h.stands _ _ haccess
      exact hr.findsVariable hsees hv _
    · cases heq
  · exact note_quiet (fun _ _ => Event.noConfusion) rfl (fun _ _ _ => Event.noConfusion) (hP flow w' _ hflow)

/-- A condition that conforms to the booleans decides, or is `Nil`. -/
theorem safe_test (heval : Evaluates t p funs F G n) {condition : Expr} {α : Type} {f : Bool → Traced α}
    {Q : α → World → Prop} (hsees : Sees G w.origins env Γ) (h : HasType t p.bindings F Γ condition .boolean)
    (hf : ∀ b w', w'.origins = w.origins → Safe t p funs w' (f b) Q) :
    Safe t p funs w (do
      let test ← Traced.expression n env condition
      let b ← Traced.lift (Eval.ofExcept (test.asBoolean condition.offset))
      f b) Q := by
  apply Safe.bind (heval hsees h)
  intro test w₁ _ htest
  apply Safe.bind (Safe.ofExcept (Value.asBoolean_meets htest.2))
  intro b w₂ _ hb
  obtain ⟨rfl, -⟩ := hb
  exact hf b _ htest.1

/-- A declaration adds its name to the innermost scope. -/
theorem safe_declaration (heval : Evaluates t p funs F G n) {base : Origins} {names : Names} {node : Node}
    {name : String} {value : Option Expr} {v : VariableInfo} (horigins : w.origins = base.push names)
    (hsees : Sees G w.origins (base.size :: env) Γ) (hvalue : Initial t p.bindings F Γ value v.type v.list)
    (hnew : names.lookup name = none) (hv : t.findVariable? node.id = some v) (hmutable : v.mutable = true) :
    Safe t p funs w (do
      let initial ← Traced.optional (Traced.expression n (base.size :: env)) value
      Traced.define (base.size :: env) node name ⟨true, initial⟩
      return Flow.normal) fun flow w' => w'.origins = base.push ((name, node.id) :: names) ∧ flow = .normal := by
  apply Safe.bind (safe_optional heval hsees hvalue)
  intro initial w₁ _ h
  refine Safe.bind (P := fun _ w' => w'.origins = base.push ((name, node.id) :: names)) ?_ fun _ w₂ _ h₂ => ?_
  · exact .define rfl (h.1.trans horigins) hnew (cellOf_of_mutable hv hmutable h.2) rfl
  · exact .pure ⟨h₂, rfl⟩

/-- A conditional executes one of its branches, or neither. -/
theorem safe_conditional (heval : Evaluates t p funs F G n) (hexec : Executes t p funs F G n) {ρ : Ty}
    {condition : Expr} {onTrue onFalse : List Statement} (hsees : Sees G w.origins env Γ)
    (hcondition : HasType t p.bindings F Γ condition .boolean) (honTrue : ChecksAll t p.bindings F ρ ([] :: Γ) onTrue)
    (honFalse : ChecksAll t p.bindings F ρ ([] :: Γ) onFalse) :
    Safe t p funs w (do
      let test ← Traced.expression n env condition
      let holds ← Traced.lift (Eval.ofExcept (test.asBoolean condition.offset))
      let branch := if holds then onTrue else onFalse
      if branch.isEmpty then return Flow.normal else Traced.block (Traced.statement n) env branch) fun flow w' =>
        w'.origins = w.origins ∧ flow.Conforms ρ := by
  apply safe_test heval hsees hcondition
  intro holds w₁ h₁
  have hbranch : ChecksAll t p.bindings F ρ ([] :: Γ) (if holds then onTrue else onFalse) := by
    split
    next => exact honTrue
    next => exact honFalse
  have hsees₁ : Sees G w₁.origins env Γ := h₁ ▸ hsees
  simp only
  -- Both branches obey the rules, so it does not matter which one was chosen.
  generalize (if holds then onTrue else onFalse) = branch at hbranch
  split
  next => exact .pure ⟨h₁, trivial⟩
  next => exact (safe_block hexec hsees₁ hbranch).mono fun flow w₂ _ h₂ => ⟨h₂.1.trans h₁, h₂.2⟩

/-- A switch executes the statements of the arm it selects. -/
theorem safe_switch (heval : Evaluates t p funs F G n) (hexec : Executes t p funs F G n) {ρ τ : Ty} {condition : Expr}
    {cases : List Case} (hsees : Sees G w.origins env Γ) (hcondition : HasType t p.bindings F Γ condition τ)
    (hcases : ChecksArms t p.bindings F ρ Γ cases) :
    Safe t p funs w (do
      let subject ← Traced.expression n env condition
      match ← Traced.select (Traced.expression n env) subject none cases with
      | some body => Traced.block (Traced.statement n) env body
      | none => return Flow.normal) fun flow w' => w'.origins = w.origins ∧ flow.Conforms ρ := by
  apply Safe.bind (heval hsees hcondition)
  intro subject w₁ _ h₁
  have hsees₁ : Sees G w₁.origins env Γ := h₁.1 ▸ hsees
  have hnone : ∀ body, (none : Option (List Statement)) = some body → ChecksAll t p.bindings F ρ ([] :: Γ) body :=
    fun _ heq => nomatch heq
  apply Safe.bind (safe_select heval hsees₁ hcases hnone)
  intro selected w₂ _ h₂
  have horigins : w₂.origins = w.origins := h₂.1.trans h₁.1
  have hsees₂ : Sees G w₂.origins env Γ := horigins ▸ hsees
  cases selected with
  | none => exact .pure ⟨horigins, trivial⟩
  | some body =>
    exact (safe_block hexec hsees₂ (h₂.2 body rfl)).mono fun flow w₃ _ h₃ => ⟨h₃.1.trans horigins, h₃.2⟩

/-- Statements are safe with more fuel if everything is safe with less. -/
theorem executes_succ (heval : Evaluates t p funs F G n) (hexec : Executes t p funs F G n)
    (hloops : Loops t p funs F G n) : Executes t p funs F G (n + 1) := by
  intro ρ w base names env Δ s horigins hsees h
  have hall : Sees G w.origins (base.size :: env) (names :: Δ) := horigins ▸ hsees.push names
  have horigins' : { w with last := some (.begins s) }.origins = base.push names := horigins
  have hall' : Sees G { w with last := some (.begins s) }.origins (base.size :: env) (names :: Δ) := hall
  -- All statements but declarations leave the names of the innermost scope as they are.
  have hkeeps : ∀ (flow : Flow) (w' : World), w'.origins = w.origins ∧ flow.Conforms ρ →
      (∃ names', w'.origins = base.push names' ∧ names :: Δ = names' :: Δ) ∧ flow.Conforms ρ :=
    fun flow w' h' => ⟨⟨names, h'.1.trans horigins, rfl⟩, h'.2⟩
  unfold Traced.statement
  apply Safe.executed hall h (fun _ _ _ h => h)
  have hassignment := h
  -- One case for each rule; a declaration alone changes the innermost scope.
  cases h with
  | expression htype =>
    apply Safe.bind (heval hall' htype).discard
    intro _ w₁ _ hv
    obtain ⟨v, hv⟩ := hv
    exact .pure (hkeeps _ _ ⟨hv.1, trivial⟩)
  | declaration hvalue hnew hv hname hmutable =>
    apply (safe_declaration heval horigins' hall' hvalue hnew hv hmutable).mono
    intro flow w₁ _ h₁
    obtain ⟨h₁, rfl⟩ := h₁
    exact ⟨⟨_, h₁, rfl⟩, trivial⟩
  | assignVariable | assignElement =>
    apply Safe.bind (safe_assign heval hall' hassignment rfl)
    intro _ w₁ _ h₁
    exact .pure (hkeeps _ _ ⟨h₁, trivial⟩)
  | conditional hcondition honTrue honFalse =>
    exact (safe_conditional heval hexec hall' hcondition honTrue honFalse).mono fun flow w' _ => hkeeps flow w'
  | switch hsubject hcases =>
    exact (safe_switch heval hexec hall' hsubject hcases).mono fun flow w' _ => hkeeps flow w'
  | loop hcondition hbody => exact (hloops hall' hcondition hbody).mono fun flow w' _ => hkeeps flow w'
  | returning hvalue haccepts =>
    apply Safe.bind (heval hall' hvalue)
    intro v w₁ _ hv
    exact .pure (hkeeps _ _ ⟨hv.1, hv.2.of_accepts haccepts⟩)

/-- Loops are safe with more fuel if everything is safe with less. -/
theorem loops_succ (heval : Evaluates t p funs F G n) (hexec : Executes t p funs F G n)
    (hloops : Loops t p funs F G n) : Loops t p funs F G (n + 1) := by
  intro ρ w env Γ condition body hsees hcondition hbody
  unfold Traced.loop
  apply safe_test heval hsees hcondition
  intro holds w₁ h₁
  have hsees₁ : Sees G w₁.origins env Γ := h₁ ▸ hsees
  split
  next =>
    apply Safe.bind (safe_block hexec hsees₁ hbody)
    intro flow w₂ _ h₂
    have horigins : w₂.origins = w.origins := h₂.1.trans h₁
    have hsees₂ : Sees G w₂.origins env Γ := horigins ▸ hsees
    -- Each turn runs in a scope of its own; the next one starts with the scopes of the first.
    cases flow with
    | returned v => exact .pure ⟨horigins, h₂.2⟩
    | normal => exact (hloops hsees₂ hcondition hbody).mono fun flow w₃ _ h₃ => ⟨h₃.1.trans horigins, h₃.2⟩
  next => exact .pure ⟨h₁, trivial⟩

/-- Everything is safe, however much fuel there is. -/
theorem everything (hserves : Serves t p funs F G) (n : Nat) : Evaluates t p funs F G n ∧ Calls t p funs F G n ∧
    Executes t p funs F G n ∧ Loops t p funs F G n := by
  -- Calls and loops go back to all four evaluators, so they are shown safe together.
  induction n with
  | zero =>
    refine ⟨fun _ _ => ?_, fun _ _ _ => ?_, fun _ _ _ => ?_, fun _ _ _ => ?_⟩
    · exact .stop fun _ => trivial
    · exact .stop fun _ => trivial
    · exact .stop fun _ => trivial
    · exact .stop fun _ => trivial
  | succ n ih =>
    obtain ⟨heval, hcalls, hexec, hloops⟩ := ih
    exact ⟨evaluates_succ hserves heval hcalls, calls_succ hserves hexec, executes_succ heval hexec hloops,
      loops_succ heval hexec hloops⟩

end BlockLang
