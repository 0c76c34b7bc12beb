import BlockLang.Proofs.Run.Erasure

/-!
# More fuel

A run with more fuel goes on where a run with less had to stop: what had happened by then has happened in both, and
an outcome that has been reached stays.  So the records of a program with more and more fuel are the beginnings of
one run, and a moment of that run is in the record as soon as there is enough fuel.

Only the recursive calls use fuel.  The sequences that take evaluators as parameters are therefore compared for any
two evaluators of which one continues the other; the evaluators themselves are compared by induction on the fuel.

## Main statements

- `Program.record_suffix`: more fuel only adds moments.
- `Eval.program_of_le`: more fuel changes no outcome.
-/

namespace BlockLang

open Stateful

/-- An evaluation goes at least as far as another one.  It does the same, unless the other one runs out of fuel; then
it has at least the same moments. -/
structure Continues {α : Type} (x y : Traced α) : Prop where
  adds : ∀ r, r.moments <:+ (Traced.final (y r)).moments
  agrees : ∀ r, (∃ r', x r = .error .outOfFuel r' ∧ r'.moments <:+ (Traced.final (y r)).moments) ∨ y r = x r

namespace Continues

variable {α β : Type}

/-! ## §1 Steps and sequences -/

/-- What only adds moments continues itself. -/
theorem of_adds {x : Traced α} (h : ∀ r, r.moments <:+ (Traced.final (x r)).moments) : Continues x x :=
  ⟨h, fun _ => Or.inr rfl⟩

/-- What only adds moments continues an evaluation without fuel. -/
theorem outOfFuel {y : Traced α} (h : Continues y y) : Continues (throw .outOfFuel) y :=
  ⟨h.adds, fun r => Or.inl ⟨r, rfl, h.adds r⟩⟩

theorem pure (a : α) : Continues (pure a) (pure a) := of_adds fun _ => List.suffix_rfl

theorem throw (e : Stop) : Continues (throw e : Traced α) (throw e) := of_adds fun _ => List.suffix_rfl

theorem lift (x : Eval α) : Continues (Traced.lift x) (Traced.lift x) := by
  apply of_adds
  intro r
  unfold Traced.lift
  cases x r.store <;> exact List.suffix_rfl

theorem note (env : Env) (event : Event) : Continues (Traced.note env event) (Traced.note env event) :=
  of_adds fun _ => List.suffix_cons _ _

theorem bind {x y : Traced α} {f g : α → Traced β} (hx : Continues x y) (hf : ∀ a, Continues (f a) (g a)) :
    Continues (x >>= f) (y >>= g) := by
  -- What `y` has recorded is still there after `g`.
  have hrest : ∀ r, (Traced.final (y r)).moments <:+ (Traced.final ((y >>= g) r)).moments := by
    intro r
    cases hrun : y r with
    | error e r' =>
      rw [bind_of_error hrun]
      exact List.suffix_rfl
    | ok a r' =>
      rw [bind_of_ok hrun]
      exact (hf a).adds r'
  refine ⟨fun r => (hx.adds r).trans (hrest r), fun r => ?_⟩
  -- If the first part ran out of fuel, so did the whole; else the second part decides.
  rcases hx.agrees r with ⟨r', hrun, hmoments⟩ | hsame
  · exact Or.inl ⟨r', bind_of_error hrun, hmoments.trans (hrest r)⟩
  · cases hrun : x r with
    | error e r' =>
      right
      rw [bind_of_error hrun, bind_of_error (hsame.trans hrun)]
    | ok a r' =>
      rw [bind_of_ok hrun, bind_of_ok (hsame.trans hrun)]
      exact (hf a).agrees r'

theorem ite {c : Prop} [Decidable c] {x x' y y' : Traced α} (hx : Continues x y) (hx' : Continues x' y') :
    Continues (if c then x else x') (if c then y else y') := by
  split
  · exact hx
  · exact hx'

theorem discard {x y : Traced α} (hx : Continues x y) : Continues (discard x) (discard y) :=
  bind hx fun _ => pure ()

theorem watch {x y : Traced α} (env : Env) (before : Event) (after : α → Event) (hx : Continues x y) :
    Continues (Traced.watch env before after x) (Traced.watch env before after y) :=
  bind (note env before) fun _ => bind hx fun a => bind (note env (after a)) fun _ => pure a

theorem define (env : Env) (node : Node) (name : String) (cell : Cell) :
    Continues (Traced.define env node name cell) (Traced.define env node name cell) :=
  bind (lift _) fun _ => bind (of_adds fun _ => List.suffix_rfl) fun _ => note env _

theorem inScope {env : Env} {x y : Env → Traced α} (hx : ∀ inner, Continues (x inner) (y inner)) :
    Continues (Traced.inScope env x) (Traced.inScope env y) := by
  -- Opening and closing a scope records nothing.
  have hfinal : ∀ (z : Env → Traced α) r, (Traced.final (Traced.inScope env z r)).moments =
      (Traced.final (z (r.store.scopes.size :: env)
        { r with store := r.store.openScope, origins := r.origins.push [] })).moments := by
    intro z r
    unfold Traced.inScope
    cases z (r.store.scopes.size :: env) { r with store := r.store.openScope, origins := r.origins.push [] } <;> rfl
  refine ⟨fun r => ?_, fun r => ?_⟩
  · have hadds := (hx (r.store.scopes.size :: env)).adds
      { r with store := r.store.openScope, origins := r.origins.push [] }
    rw [hfinal]
    exact hadds
  · rw [hfinal]
    rcases (hx (r.store.scopes.size :: env)).agrees
      { r with store := r.store.openScope, origins := r.origins.push [] } with ⟨r', hrun, hmoments⟩ | hsame
    · refine Or.inl ⟨{ r' with store := r'.store.closeScope, origins := r'.origins.pop }, ?_, hmoments⟩
      unfold Traced.inScope
      rw [hrun]
    · right
      unfold Traced.inScope
      rw [hsame]

/-! ## §2 Sequences of expressions and statements -/

section

variable {eval eval' : Expr → Traced Value} (heval : ∀ e, Continues (eval e) (eval' e))

include heval

theorem all (es : List Expr) : Continues (Traced.all eval es) (Traced.all eval' es) := by
  induction es with
  | nil => exact pure []
  | cons e rest ih => exact bind (heval e) fun v => bind ih fun vs => pure (v :: vs)

theorem optional (e : Option Expr) : Continues (Traced.optional eval e) (Traced.optional eval' e) := by
  cases e with
  | none => exact pure Value.nil
  | some e => exact heval e

theorem binary (op : Operator) (left right : Expr) (offset : Nat) :
    Continues (Traced.binary eval op left right offset) (Traced.binary eval' op left right offset) := by
  refine bind (heval left) fun l => ite ?_ ?_
  · refine bind (lift _) fun decided => ite (pure l) ?_
    exact bind (heval right) fun r => lift _
  · exact bind (heval right) fun r => bind (lift get) fun s => lift _

theorem element (env : Env) (name : String) (index : Expr) (offset : Nat) :
    Continues (Traced.element eval env name index offset) (Traced.element eval' env name index offset) := by
  refine bind (lift _) fun found => bind (heval index) fun position => bind (lift _) fun held => ?_
  refine bind (lift _) fun list => bind (lift get) fun s => bind (lift _) fun n => ?_
  exact bind (lift _) fun i => pure _

theorem storeElement (ref : VariableRef) (index value receiver : Expr) (offset : Nat) :
    Continues (Traced.storeElement eval ref index value receiver offset)
      (Traced.storeElement eval' ref index value receiver offset) := by
  refine bind (heval index) fun position => bind (heval value) fun v => bind (lift _) fun held => ?_
  refine bind (lift _) fun list => bind (lift get) fun s => ite (lift _) ?_
  exact bind (lift _) fun n => bind (lift _) fun i => lift _

theorem assign (env : Env) (target value : Expr) (offset : Nat) :
    Continues (Traced.assign eval env target value offset) (Traced.assign eval' env target value offset) := by
  -- Only variables and elements can be assigned.
  cases target with
  | «variable» node name => exact bind (lift _) fun ref => bind (heval value) fun v => lift _
  | element node name index => exact bind (lift _) fun ref => storeElement heval ref index value _ offset
  | literal | group | binary | call | list => exact lift (Eval.fail (.typeFault .receiver offset))

theorem select (subject : Value) (fallback : Option (List Statement)) (cases : List Case) :
    Continues (Traced.select eval subject fallback cases) (Traced.select eval' subject fallback cases) := by
  induction cases generalizing fallback with
  | nil => exact pure fallback
  | cons arm rest ih =>
    obtain ⟨offset, value, body⟩ := arm
    cases value with
    | none => exact ih _
    | some value =>
      exact bind (heval value) fun v => bind (lift get) fun s => ite (pure (some body)) (ih fallback)

end

theorem inOrder {exec exec' : Statement → Traced Flow} (hexec : ∀ s, Continues (exec s) (exec' s))
    (body : List Statement) : Continues (Traced.inOrder exec body) (Traced.inOrder exec' body) := by
  induction body with
  | nil => exact pure Flow.normal
  | cons first rest ih =>
    apply bind (hexec first)
    intro flow
    cases flow with
    | returned v => exact pure (Flow.returned v)
    | normal => exact ih

theorem block {exec exec' : Env → Statement → Traced Flow} (hexec : ∀ env s, Continues (exec env s) (exec' env s))
    (env : Env) (body : List Statement) : Continues (Traced.block exec env body) (Traced.block exec' env body) :=
  inScope fun inner => inOrder (hexec inner) body

theorem bindParameters (env : Env) (ps : List Parameter) (values : List Value) :
    Continues (Traced.bindParameters env ps values) (Traced.bindParameters env ps values) := by
  induction ps generalizing values with
  | nil => exact pure ()
  | cons p rest ih =>
    cases values with
    | nil => exact pure ()
    | cons v values => exact bind (define env p.node p.name ⟨true, v⟩) fun _ => ih values

/-! ## §3 Everything together -/

/-- All evaluators with fuel `m` continue those with fuel `n`. -/
structure Everywhere (n m : Nat) : Prop where
  expression : ∀ env e, Continues (Traced.expression n env e) (Traced.expression m env e)
  call : ∀ env name arguments offset, Continues (Traced.call n env name arguments offset)
    (Traced.call m env name arguments offset)
  statement : ∀ env s, Continues (Traced.statement n env s) (Traced.statement m env s)
  loop : ∀ env condition body, Continues (Traced.loop n env condition body) (Traced.loop m env condition body)

namespace Everywhere

variable {n m : Nat}

theorem expression_succ (h : Everywhere n m) (env : Env) (e : Expr) :
    Continues (Traced.expression (n + 1) env e) (Traced.expression (m + 1) env e) := by
  apply watch env _ _
  cases e with
  | literal node value => exact pure (Value.ofLiteral value)
  | group node inner => exact h.expression env inner
  | binary node op left right => exact binary (h.expression env) op left right node.offset
  | «variable» node name => exact bind (lift _) fun found => pure _
  | element node name index => exact element (h.expression env) env name index node.offset
  | call node name arguments =>
    refine bind (all (h.expression env) arguments) fun values => bind (note env _) fun _ => ?_
    exact h.call env name values node.offset
  | list node elements => exact bind (all (h.expression env) elements) fun values => lift _

theorem call_succ (h : Everywhere n m) (env : Env) (name : String) (arguments : List Value) (offset : Nat) :
    Continues (Traced.call (n + 1) env name arguments offset) (Traced.call (m + 1) env name arguments offset) := by
  apply bind (lift get)
  intro s
  cases s.findFunction? env name arguments.length with
  | none => exact lift _
  | some callable =>
    cases callable with
    | builtin which => exact lift _
    | defined f closure =>
      cases closure with
      | none => exact lift _
      | some closure =>
        refine inScope fun inner => bind (bindParameters inner f.parameters arguments) fun _ => ?_
        apply bind (inOrder (h.statement inner) f.body)
        intro flow
        cases flow <;> exact pure _

theorem statement_succ (h : Everywhere n m) (env : Env) (s : Statement) :
    Continues (Traced.statement (n + 1) env s) (Traced.statement (m + 1) env s) := by
  apply watch env _ _
  cases s with
  | expression offset e => exact bind (discard (h.expression env e)) fun _ => pure Flow.normal
  | declaration node name type value =>
    apply bind (optional (h.expression env) value)
    intro v
    exact bind (define env node name ⟨true, v⟩) fun _ => pure Flow.normal
  | assignment offset target value =>
    exact bind (assign (h.expression env) env target value offset) fun _ => pure Flow.normal
  | conditional offset condition onTrue onFalse =>
    refine bind (h.expression env condition) fun test => bind (lift _) fun holds => ite (pure Flow.normal) ?_
    exact block h.statement env _
  | switch offset condition cases =>
    apply bind (h.expression env condition)
    intro subject
    apply bind (select (h.expression env) subject none cases)
    intro body
    cases body with
    | none => exact pure Flow.normal
    | some body => exact block h.statement env body
  | loop offset condition body => exact h.loop env condition body
  | returning offset value => exact bind (h.expression env value) fun v => pure (Flow.returned v)

theorem loop_succ (h : Everywhere n m) (env : Env) (condition : Expr) (body : List Statement) :
    Continues (Traced.loop (n + 1) env condition body) (Traced.loop (m + 1) env condition body) := by
  refine bind (h.expression env condition) fun test => bind (lift _) fun holds => ite ?_ (pure Flow.normal)
  apply bind (block h.statement env body)
  intro flow
  cases flow with
  | returned v => exact pure (Flow.returned v)
  | normal => exact h.loop env condition body

theorem succ (h : Everywhere n m) : Everywhere (n + 1) (m + 1) :=
  ⟨h.expression_succ, h.call_succ, h.statement_succ, h.loop_succ⟩

theorem refl (n : Nat) : Everywhere n n := by
  induction n with
  | zero => exact ⟨fun _ _ => throw _, fun _ _ _ _ => throw _, fun _ _ => throw _, fun _ _ _ => throw _⟩
  | succ n ih => exact ih.succ

theorem of_le (h : n ≤ m) : Everywhere n m := by
  -- Without fuel nothing is known of the outcome, but the moments so far are kept by any run.
  induction n generalizing m with
  | zero =>
    have hm := refl m
    exact ⟨fun env e => outOfFuel (hm.expression env e), fun env name arguments offset =>
      outOfFuel (hm.call env name arguments offset), fun env s => outOfFuel (hm.statement env s),
      fun env condition body => outOfFuel (hm.loop env condition body)⟩
  | succ n ih =>
    cases m with
    | zero => exact absurd h (Nat.not_succ_le_zero n)
    | succ m => exact (ih (Nat.le_of_succ_le_succ h)).succ

end Everywhere

/-! ## §4 Programs -/

theorem globals {n m : Nat} (h : n ≤ m) (gs : List Global) : Continues (Traced.globals n gs) (Traced.globals m gs) := by
  induction gs with
  | nil => exact pure ()
  | cons g rest ih =>
    apply bind (optional ((Everywhere.of_le h).expression .globals) g.value)
    intro v
    exact bind (define .globals g.node g.name ⟨g.mutable, v⟩) fun _ => ih

theorem program {n m : Nat} (h : n ≤ m) (p : Program) : Continues (Traced.program n p) (Traced.program m p) := by
  refine bind (globals h p.globals) fun _ => bind (lift _) fun _ => ?_
  exact (Everywhere.of_le h).call .globals "main" [] (Eval.mainOffset p)

end Continues

variable {n m : Nat}

/-- With more fuel, the record of a run begins with the same moments. -/
theorem Program.record_suffix (h : n ≤ m) (p : Program) (limit : Option Nat) :
    (p.record n limit).moments <:+ (p.record m limit).moments := by
  unfold Program.record
  rcases (Continues.program h p).agrees (.initial limit) with ⟨r', hrun, hmoments⟩ | hsame
  · rw [hrun]
    exact hmoments
  · exact hsame ▸ List.suffix_rfl

/-- With more fuel, a run that has not run out of fuel ends as it did. -/
theorem Eval.program_of_le (h : n ≤ m) (p : Program) (limit : Option Nat)
    (hfuel : ∀ s, Eval.program n p (.initial limit) ≠ .error .outOfFuel s) :
    Eval.program m p (.initial limit) = Eval.program n p (.initial limit) := by
  -- The comparison is one of recorded runs.
  rw [← Traced.forget_program n] at hfuel ⊢
  rw [← Traced.forget_program m]
  rcases (Continues.program h p).agrees (.initial limit) with ⟨r', hrun, -⟩ | hsame
  · rw [hrun] at hfuel
    exact absurd rfl (hfuel r'.store)
  · rw [hsame]

end BlockLang
