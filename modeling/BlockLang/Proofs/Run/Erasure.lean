import BlockLang.Proofs.Run.Record
import BlockLang.Proofs.Stateful

/-!
# Forgetting the record

A recorded evaluation and an evaluation are compared step by step: from any state, the recorded one reaches what the
other one reaches from the store alone.  The comparison goes through sequences, and each function of the recorded
evaluator is built from recorded steps as its counterpart is built from steps.

## Main statement

- `Traced.forget_program`: a recorded run of a program, without its record, is the run of the program.
-/

namespace BlockLang

open Stateful

/-- The outcome of a recorded evaluation without the record. -/
def Recorder.forget {α : Type} : EStateM.Result Stop Recorder α → EStateM.Result Stop Store α
  | .ok a r => .ok a r.store
  | .error e r => .error e r.store

/-- From every state, a recorded evaluation reaches what an evaluation reaches from the store. -/
def Erases {α : Type} (x : Traced α) (y : Eval α) : Prop :=
  ∀ r, Recorder.forget (x r) = y r.store

namespace Erases

variable {α β : Type}

/-- Both reach the same store, however they end. -/
theorem store_eq {x : Traced α} {y : Eval α} (h : Erases x y) (r : Recorder) :
    (state (x r)).store = state (y r.store) := by
  rw [← h r]
  cases x r <;> rfl

/-! ## §1 Steps and sequences -/

theorem pure (a : α) : Erases (pure a) (pure a) := fun _ => rfl

theorem throw (e : Stop) : Erases (throw e : Traced α) (throw e) := fun _ => rfl

theorem lift (x : Eval α) : Erases (Traced.lift x) x := by
  intro r
  unfold Traced.lift
  cases x r.store <;> rfl

theorem bind {x : Traced α} {y : Eval α} {f : α → Traced β} {g : α → Eval β} (hx : Erases x y)
    (hf : ∀ a, Erases (f a) (g a)) : Erases (x >>= f) (y >>= g) := by
  intro r
  have hr := hx r
  -- Where the first part stops, the rest is not reached in either run.
  cases hrun : x r with
  | ok a t =>
    rw [hrun] at hr
    rw [bind_of_ok hrun, bind_of_ok hr.symm]
    exact hf a t
  | error e t =>
    rw [hrun] at hr
    rw [bind_of_error hrun, bind_of_error hr.symm]
    rfl

theorem discard {x : Traced α} {y : Eval α} (hx : Erases x y) : Erases (discard x) (discard y) := by
  intro r
  have hr := hx r
  -- Throwing a value away is mapping it to the unit.
  change Recorder.forget (EStateM.map _ x r) = EStateM.map _ y r.store
  unfold EStateM.map
  rw [← hr]
  cases x r <;> rfl

theorem ite {c : Prop} [Decidable c] {x x' : Traced α} {y y' : Eval α} (hx : Erases x y) (hx' : Erases x' y') :
    Erases (if c then x else x') (if c then y else y') := by
  split
  · exact hx
  · exact hx'

/-- A note leaves no trace in the store. -/
theorem note_bind {x : Traced α} {y : Eval α} (env : Env) (event : Event) (hx : Erases x y) :
    Erases (Traced.note env event >>= fun _ => x) y := fun _ => hx _

theorem watch {x : Traced α} {y : Eval α} (env : Env) (before : Event) (after : α → Event) (hx : Erases x y) :
    Erases (Traced.watch env before after x) y := by
  apply note_bind _ _
  intro r
  have hr := hx r
  cases hrun : x r with
  | ok a t =>
    rw [hrun] at hr
    rw [bind_of_ok hrun]
    exact hr
  | error e t =>
    rw [hrun] at hr
    rw [bind_of_error hrun]
    exact hr

theorem inScope {env : Env} {x : Env → Traced α} {y : Env → Eval α} (hx : ∀ inner, Erases (x inner) (y inner)) :
    Erases (Traced.inScope env x) (Eval.inScope env y) := by
  intro r
  -- The scope is opened and closed in the store in the same way.
  have hr := hx (r.store.scopes.size :: env) { r with store := r.store.openScope, origins := r.origins.push [] }
  unfold Traced.inScope Eval.inScope
  simp only at hr
  rw [← hr]
  cases x (r.store.scopes.size :: env) { r with store := r.store.openScope, origins := r.origins.push [] } <;> rfl

theorem define (env : Env) (node : Node) (name : String) (cell : Cell) :
    Erases (Traced.define env node name cell) (Eval.define env name cell node.offset) := by
  intro r
  unfold Traced.define
  have hr := lift (Eval.define env name cell node.offset) r
  cases hrun : Traced.lift (Eval.define env name cell node.offset) r with
  | ok a t =>
    rw [hrun] at hr
    rw [bind_of_ok hrun]
    exact hr
  | error e t =>
    rw [hrun] at hr
    rw [bind_of_error hrun]
    exact hr

/-! ## §2 Sequences of expressions and statements -/

section

variable {eval : Expr → Traced Value} {eval' : Expr → Eval Value} (heval : ∀ e, Erases (eval e) (eval' e))

include heval

theorem all (es : List Expr) : Erases (Traced.all eval es) (Eval.all eval' es) := by
  induction es with
  | nil => exact pure []
  | cons e rest ih => exact bind (heval e) fun v => bind ih fun vs => pure (v :: vs)

theorem optional (e : Option Expr) : Erases (Traced.optional eval e) (Eval.optional eval' e) := by
  cases e with
  | none => exact pure Value.nil
  | some e => exact heval e

theorem binary (op : Operator) (left right : Expr) (offset : Nat) :
    Erases (Traced.binary eval op left right offset) (Eval.binary eval' op left right offset) := by
  refine bind (heval left) fun l => ite ?_ ?_
  · refine bind (lift _) fun decided => ite (pure l) ?_
    exact bind (heval right) fun r => lift _
  · exact bind (heval right) fun r => bind (lift get) fun s => lift _

theorem element (env : Env) (name : String) (index : Expr) (offset : Nat) :
    Erases (Traced.element eval env name index offset) (Eval.element eval' env name index offset) := by
  refine bind (lift _) fun found => bind (heval index) fun position => bind (lift _) fun held => ?_
  refine bind (lift _) fun list => bind (lift get) fun s => bind (lift _) fun n => ?_
  exact bind (lift _) fun i => pure _

theorem storeElement (ref : VariableRef) (index value receiver : Expr) (offset : Nat) :
    Erases (Traced.storeElement eval ref index value receiver offset)
      (Eval.storeElement eval' ref index value receiver offset) := by
  refine bind (heval index) fun position => bind (heval value) fun v => bind (lift _) fun held => ?_
  refine bind (lift _) fun list => bind (lift get) fun s => ite (lift _) ?_
  exact bind (lift _) fun n => bind (lift _) fun i => lift _

theorem assign (env : Env) (target value : Expr) (offset : Nat) :
    Erases (Traced.assign eval env target value offset) (Eval.assign eval' env target value offset) := by
  cases target with
  | «variable» node name =>
    exact bind (lift _) fun ref => bind (heval value) fun v => lift _
  | element node name index =>
    exact bind (lift _) fun ref => storeElement heval ref index value _ offset
  | literal | group | binary | call | list => exact lift (Eval.fail (.typeFault .receiver offset))

theorem select (subject : Value) (fallback : Option (List Statement)) (cases : List Case) :
    Erases (Traced.select eval subject fallback cases) (Eval.select eval' subject fallback cases) := by
  induction cases generalizing fallback with
  | nil => exact pure fallback
  | cons arm rest ih =>
    obtain ⟨offset, value, body⟩ := arm
    -- A default arm is only remembered.
    cases value with
    | none => exact ih _
    | some value =>
      exact bind (heval value) fun v => bind (lift get) fun s => ite (pure (some body)) (ih fallback)

end

section

variable {exec : Statement → Traced Flow} {exec' : Statement → Eval Flow} (hexec : ∀ s, Erases (exec s) (exec' s))

include hexec

theorem inOrder (body : List Statement) : Erases (Traced.inOrder exec body) (Eval.inOrder exec' body) := by
  induction body with
  | nil => exact pure Flow.normal
  | cons first rest ih =>
    apply bind (hexec first)
    intro flow
    cases flow with
    | returned v => exact pure (Flow.returned v)
    | normal => exact ih

end

theorem block {exec : Env → Statement → Traced Flow} {exec' : Env → Statement → Eval Flow}
    (hexec : ∀ env s, Erases (exec env s) (exec' env s)) (env : Env) (body : List Statement) :
    Erases (Traced.block exec env body) (Eval.block exec' env body) :=
  inScope fun inner => inOrder (hexec inner) body

theorem bindParameters (env : Env) (ps : List Parameter) (values : List Value) :
    Erases (Traced.bindParameters env ps values) (Eval.bindParameters env ps values) := by
  induction ps generalizing values with
  | nil => exact pure ()
  | cons p rest ih =>
    cases values with
    | nil => exact pure ()
    | cons v values => exact bind (define env p.node p.name ⟨true, v⟩) fun _ => ih values

/-! ## §3 Everything together -/

/-- With `n` as fuel, the recorded evaluators do what the evaluators do. -/
structure Everywhere (n : Nat) : Prop where
  expression : ∀ env e, Erases (Traced.expression n env e) (Eval.expression n env e)
  call : ∀ env name arguments offset, Erases (Traced.call n env name arguments offset)
    (Eval.call n env name arguments offset)
  statement : ∀ env s, Erases (Traced.statement n env s) (Eval.statement n env s)
  loop : ∀ env condition body, Erases (Traced.loop n env condition body) (Eval.loop n env condition body)

namespace Everywhere

variable {n : Nat}

/-- Every form is built from recorded steps as its counterpart is from steps. -/
theorem expression_succ (h : Everywhere n) (env : Env) (e : Expr) :
    Erases (Traced.expression (n + 1) env e) (Eval.expression (n + 1) env e) := by
  apply watch env _ _
  cases e with
  | literal node value => exact pure (Value.ofLiteral value)
  | group node inner => exact h.expression env inner
  | binary node op left right => exact binary (h.expression env) op left right node.offset
  | «variable» node name => exact bind (lift _) fun found => pure _
  | element node name index => exact element (h.expression env) env name index node.offset
  | call node name arguments =>
    refine bind (all (h.expression env) arguments) fun values => note_bind _ _ ?_
    exact h.call env name values node.offset
  | list node elements => exact bind (all (h.expression env) elements) fun values => lift _

theorem call_succ (h : Everywhere n) (env : Env) (name : String) (arguments : List Value) (offset : Nat) :
    Erases (Traced.call (n + 1) env name arguments offset) (Eval.call (n + 1) env name arguments offset) := by
  apply bind (lift get)
  intro s
  cases s.findFunction? env name arguments.length with
  | none => exact lift _
  | some callable =>
    cases callable with
    | builtin which => exact lift _
    | defined f closure =>
      cases closure with
      | none => exact lift _
      | some closure =>
        refine inScope fun inner => bind (bindParameters inner f.parameters arguments) fun _ => ?_
        apply bind (inOrder (h.statement inner) f.body)
        intro flow
        cases flow <;> exact pure _

theorem statement_succ (h : Everywhere n) (env : Env) (s : Statement) :
    Erases (Traced.statement (n + 1) env s) (Eval.statement (n + 1) env s) := by
  apply watch env _ _
  cases s with
  | expression offset e => exact bind (discard (h.expression env e)) fun _ => pure Flow.normal
  | declaration node name type value =>
    apply bind (optional (h.expression env) value)
    intro v
    exact bind (define env node name ⟨true, v⟩) fun _ => pure Flow.normal
  | assignment offset target value =>
    exact bind (assign (h.expression env) env target value offset) fun _ => pure Flow.normal
  | conditional offset condition onTrue onFalse =>
    refine bind (h.expression env condition) fun test => bind (lift _) fun holds => ite (pure Flow.normal) ?_
    exact block h.statement env _
  | switch offset condition cases =>
    apply bind (h.expression env condition)
    intro subject
    apply bind (select (h.expression env) subject none cases)
    intro body
    cases body with
    | none => exact pure Flow.normal
    | some body => exact block h.statement env body
  | loop offset condition body => exact h.loop env condition body
  | returning offset value => exact bind (h.expression env value) fun v => pure (Flow.returned v)

theorem loop_succ (h : Everywhere n) (env : Env) (condition : Expr) (body : List Statement) :
    Erases (Traced.loop (n + 1) env condition body) (Eval.loop (n + 1) env condition body) := by
  refine bind (h.expression env condition) fun test => bind (lift _) fun holds => ite ?_ (pure Flow.normal)
  apply bind (block h.statement env body)
  intro flow
  cases flow with
  | returned v => exact pure (Flow.returned v)
  | normal => exact h.loop env condition body

end Everywhere

theorem everything (n : Nat) : Everywhere n := by
  -- The four evaluators call each other with less fuel.
  induction n with
  | zero => exact ⟨fun _ _ => throw _, fun _ _ _ _ => throw _, fun _ _ => throw _, fun _ _ _ => throw _⟩
  | succ n ih => exact ⟨ih.expression_succ, ih.call_succ, ih.statement_succ, ih.loop_succ⟩

theorem globals (fuel : Nat) (gs : List Global) : Erases (Traced.globals fuel gs) (Eval.globals fuel gs) := by
  induction gs with
  | nil => exact pure ()
  | cons g rest ih =>
    apply bind (optional ((everything fuel).expression .globals) g.value)
    intro v
    exact bind (define .globals g.node g.name ⟨g.mutable, v⟩) fun _ => ih

theorem program (fuel : Nat) (p : Program) : Erases (Traced.program fuel p) (Eval.program fuel p) := by
  refine bind (globals fuel p.globals) fun _ => bind (lift _) fun _ => ?_
  exact (everything fuel).call .globals "main" [] (Eval.mainOffset p)

end Erases

/-- A recorded run of a program, without its record, is the run of the program. -/
theorem Traced.forget_program (fuel : Nat) (p : Program) (limit : Option Nat) :
    Recorder.forget (Traced.program fuel p (.initial limit)) = Eval.program fuel p (.initial limit) :=
  Erases.program fuel p (.initial limit)

end BlockLang
