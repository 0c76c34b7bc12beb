import BlockLang.Proofs.Layout.Unplaced
import BlockLang.Proofs.Run.Frames
import BlockLang.Proofs.Stateful

/-!
# Running without offsets

A run takes offsets into its errors alone.  Functions that a program has defined stand in the store together with their
offsets, so the store is compared without them too; values, lists and the output have none.

## Main definition

- `Store.unplaced`: a store whose functions have no offsets.

## Main statement

- `Eval.program_unplaced`: with any amount of fuel, a tree without offsets does what the tree does.
-/

namespace BlockLang

open Stateful

/-! ## §1 Operations -/

section

variable {ε δ α β : Type} (change : ε → δ)

/-- An operation that may fail, with its error changed, goes on as it did. -/
theorem mapError_bind (x : Except ε α) (f : α → Except ε β) :
    (x >>= f).mapError change = x.mapError change >>= fun a => (f a).mapError change := by
  cases x <;> rfl

theorem mapError_map (x : Except ε α) (f : α → β) : (x.map f).mapError change = (x.mapError change).map f := by
  cases x <;> rfl

end

namespace Value

theorem asBoolean_unplaced (v : Value) (offset : Nat) :
    v.asBoolean 0 = (v.asBoolean offset).mapError RunError.unplaced := by
  cases v <;> rfl

theorem asInteger_unplaced (v : Value) (offset : Nat) :
    v.asInteger 0 = (v.asInteger offset).mapError RunError.unplaced := by
  cases v <;> rfl

theorem asList_unplaced (v : Value) (offset : Nat) : v.asList 0 = (v.asList offset).mapError RunError.unplaced := by
  cases v <;> rfl

theorem checkedIndex_unplaced (index : Int) (length offset : Nat) :
    checkedIndex index length 0 = (checkedIndex index length offset).mapError RunError.unplaced := by
  unfold checkedIndex
  split <;> rfl

end Value

namespace Operation

variable (h : Heap) (op : Operator) (left right : Value) (offset : Nat)

theorem logic_unplaced : logic op left right 0 = (logic op left right offset).mapError RunError.unplaced := by
  unfold logic
  rw [mapError_bind, ← Value.asBoolean_unplaced]
  congr 1
  funext l
  rw [mapError_bind, ← Value.asBoolean_unplaced]
  congr 1
  funext r
  cases op <;> rfl

theorem order_unplaced : order left right 0 = (order left right offset).mapError RunError.unplaced := by
  cases left <;> cases right <;> rfl

theorem comparison_unplaced :
    comparison h op left right 0 = (comparison h op left right offset).mapError RunError.unplaced := by
  cases op with
  | less | greater =>
    simp only [comparison]
    rw [order_unplaced left right offset, mapError_bind]
    rfl
  | equal | notEqual | add | sub | mul | div | pow | and | or => rfl

theorem integerArithmetic_unplaced (a b : Int) :
    integerArithmetic op a b 0 = (integerArithmetic op a b offset).mapError RunError.unplaced := by
  cases op with
  | div =>
    simp only [integerArithmetic]
    split <;> rfl
  | equal | notEqual | less | greater | add | sub | mul | pow | and | or => rfl

theorem decimalArithmetic_unplaced (a b : Decimal) :
    decimalArithmetic op a b 0 = (decimalArithmetic op a b offset).mapError RunError.unplaced := by
  cases op with
  | div =>
    simp only [decimalArithmetic]
    cases a.div? b <;> rfl
  | equal | notEqual | less | greater | add | sub | mul | pow | and | or => rfl

theorem numberArithmetic_unplaced :
    numberArithmetic op left right 0 = (numberArithmetic op left right offset).mapError RunError.unplaced := by
  unfold numberArithmetic
  split
  · rw [mapError_map, ← integerArithmetic_unplaced]
  · rw [mapError_map, ← decimalArithmetic_unplaced]
  · rfl

theorem arithmetic_unplaced :
    arithmetic h op left right 0 = (arithmetic h op left right offset).mapError RunError.unplaced := by
  unfold arithmetic
  split
  · rfl
  · exact numberArithmetic_unplaced op left right offset

theorem checkedExponent_unplaced (exponent : Int) :
    checkedExponent exponent 0 = (checkedExponent exponent offset).mapError RunError.unplaced := by
  unfold checkedExponent
  split <;> rfl

theorem power_unplaced : power left right 0 = (power left right offset).mapError RunError.unplaced := by
  unfold power
  rw [mapError_bind, ← Value.asInteger_unplaced]
  congr 1
  funext exponent
  rw [mapError_bind, ← checkedExponent_unplaced]
  congr 1
  funext n
  cases left with
  | decimal b =>
    simp only
    cases b.pow? n <;> rfl
  | nil | boolean | integer | character | string | list => rfl

theorem binary_unplaced : binary h op left right 0 = (binary h op left right offset).mapError RunError.unplaced := by
  unfold binary
  cases op with
  | and | or => exact logic_unplaced _ left right offset
  | equal | notEqual | less | greater => exact comparison_unplaced h _ left right offset
  | add | sub | mul | div => exact arithmetic_unplaced h _ left right offset
  | pow => exact power_unplaced left right offset

end Operation

/-! ## §2 Stores -/

/-- A function that a name stands for, without offsets. -/
def Callable.unplaced : Callable → Callable
  | .builtin which => .builtin which
  | .defined f closure => .defined f.unplaced closure

namespace Store

/-- A store whose functions have no offsets. -/
def unplaced (s : Store) : Store :=
  { s with scopes := s.scopes.map fun f => f.mapFunctions Callable.unplaced }

variable (s : Store)

@[simp] theorem unplaced_size : s.unplaced.scopes.size = s.scopes.size :=
  Array.size_map

theorem unplaced_getElem? (scope : Nat) :
    s.unplaced.scopes[scope]? = s.scopes[scope]?.map fun f => f.mapFunctions Callable.unplaced :=
  Array.getElem?_map

@[simp] theorem cell?_unplaced (ref : VariableRef) : s.unplaced.cell? ref = s.cell? ref := by
  unfold cell?
  rw [unplaced_getElem?]
  cases s.scopes[ref.scope]? <;> rfl

@[simp] theorem valueOf_unplaced (ref : VariableRef) : s.unplaced.valueOf ref = s.valueOf ref := by
  unfold valueOf
  rw [cell?_unplaced]

@[simp] theorem findVariable?_unplaced (env : Env) (name : String) :
    s.unplaced.findVariable? env name = s.findVariable? env name := by
  unfold findVariable?
  simp only [cell?_unplaced]

theorem findFunction?_unplaced (env : Env) (name : String) (arity : Nat) :
    s.unplaced.findFunction? env name arity = (s.findFunction? env name arity).map Callable.unplaced := by
  unfold findFunction?
  rw [List.map_findSome?]
  congr 1
  funext scope
  simp only [Function.comp, unplaced_getElem?]
  cases s.scopes[scope]? with
  | none => rfl
  | some f => exact f.findFunction?_mapFunctions Callable.unplaced name arity

/-- A change of one frame that does not look at offsets changes the store alike. -/
theorem updateScope?_unplaced (scope : Nat) {change change' : RunFrame → Option RunFrame}
    (h : ∀ f : RunFrame, change' (f.mapFunctions Callable.unplaced) =
      (change f).map fun g => g.mapFunctions Callable.unplaced) :
    s.unplaced.updateScope? scope change' = (s.updateScope? scope change).map unplaced := by
  unfold updateScope?
  rw [unplaced_getElem?]
  cases s.scopes[scope]? with
  | none => rfl
  | some f =>
    simp only [Option.map_some, h, Option.map_map]
    congr 1
    funext g
    simp [unplaced, Function.comp, Array.map_setIfInBounds]

theorem defineVariable?_unplaced (ref : VariableRef) (cell : Cell) :
    s.unplaced.defineVariable? ref cell = (s.defineVariable? ref cell).map unplaced :=
  s.updateScope?_unplaced ref.scope fun f => f.defineVariable?_mapFunctions Callable.unplaced ref.name cell

theorem defineFunction?_unplaced (scope : Nat) (name : String) (arity : Nat) (g : Callable) :
    s.unplaced.defineFunction? scope name arity g.unplaced =
      (s.defineFunction? scope name arity g).map unplaced :=
  s.updateScope?_unplaced scope fun f => f.defineFunction?_mapFunctions Callable.unplaced name arity g

theorem setValue_unplaced (ref : VariableRef) (v : Value) :
    s.unplaced.setValue ref v = (s.setValue ref v).unplaced := by
  unfold setValue unplaced
  congr 1
  apply Array.ext_getElem?
  intro i
  simp only [Array.getElem?_map, Array.getElem?_modify]
  split
  · cases s.scopes[i]? <;> rfl
  · rfl

@[simp] theorem openScope_unplaced : s.unplaced.openScope = s.openScope.unplaced := by
  unfold openScope unplaced
  rw [Array.map_push]
  rfl

@[simp] theorem closeScope_unplaced : s.unplaced.closeScope = s.closeScope.unplaced := by
  unfold closeScope unplaced
  rw [Array.map_pop]

end Store

/-! ## §3 Steps -/

namespace Eval

/-- From a store without offsets, the second evaluation does what the first one does from the store, and yields what
the first one yields, as the given function says. -/
abbrev Unplaces {α β : Type} (onValue : α → β) (x : Eval α) (y : Eval β) : Prop :=
  Translates Stop.unplaced Store.unplaced onValue x y

namespace Unplaces

variable {α β : Type} {u : α → β}

theorem fail (e : RunError) : Unplaces u (Eval.fail e) (Eval.fail e.unplaced) :=
  .throw (Stop.error e)

theorem ofExcept {x y : Except RunError α} (h : y = x.mapError RunError.unplaced) :
    Unplaces id (Eval.ofExcept x) (Eval.ofExcept y) := by
  subst h
  cases x with
  | ok a => exact .pure a
  | error e => exact fail e

theorem resolve (env : Env) (name : String) (offset : Nat) :
    Unplaces id (Eval.resolve env name offset) (Eval.resolve env name 0) := by
  refine Translates.get_bind fun s => ?_
  rw [s.findVariable?_unplaced]
  cases s.findVariable? env name with
  | none => exact fail (.unknownVariable name offset)
  | some found => exact .pure found

theorem valueOf (ref : VariableRef) : Unplaces id (Eval.valueOf ref) (Eval.valueOf ref) := by
  refine Translates.get_bind fun s => ?_
  rw [s.valueOf_unplaced]
  exact .pure _

theorem define (env : Env) (name : String) (cell : Cell) (offset : Nat) :
    Unplaces id (Eval.define env name cell offset) (Eval.define env name cell 0) := by
  refine Translates.get_bind fun s => ?_
  rw [s.defineVariable?_unplaced]
  cases s.defineVariable? ⟨env.headD 0, name⟩ cell with
  | none => exact fail (.alreadyDefined name offset)
  | some t => exact .set t

theorem newList (elements : List Value) : Unplaces id (Eval.newList elements) (Eval.newList elements) :=
  fun _ => rfl

theorem write (text : String) : Unplaces id (Eval.write text) (Eval.write text) := by
  have hsink : Unplaces id
      (modifyGet fun s : Store => ((s.sink.write text).1, { s with sink := (s.sink.write text).2 }))
      (modifyGet fun s : Store => ((s.sink.write text).1, { s with sink := (s.sink.write text).2 })) :=
    fun _ => rfl
  exact .bind hsink fun complete => .ite (.pure ()) (fail (.outputFailed Sink.refusal))

theorem builtin (which : Builtin) (arguments : List Value) (offset : Nat) :
    Unplaces id (Eval.builtin which arguments offset) (Eval.builtin which arguments 0) := by
  cases which with
  | print =>
    match arguments with
    | [] | _ :: _ :: _ => exact fail (.unknownFunction "print" _ offset)
    | [v] => exact Translates.get_bind fun s => .bind (write _) fun _ => .pure Value.nil

theorem inScope {env : Env} {x : Env → Eval α} {y : Env → Eval β} (h : ∀ inner, Unplaces u (x inner) (y inner)) :
    Unplaces u (Eval.inScope env x) (Eval.inScope env y) := by
  intro s
  have hs := h (s.scopes.size :: env) s.openScope
  rw [← Store.openScope_unplaced] at hs
  unfold Eval.inScope
  rw [s.unplaced_size, hs]
  cases x (s.scopes.size :: env) s.openScope with
  | ok a t => exact congrArg (EStateM.Result.ok (u a)) t.closeScope_unplaced
  | error e t => exact congrArg (EStateM.Result.error e.unplaced) t.closeScope_unplaced

/-! ## §4 Sequences -/

section

variable {eval eval' : Expr → Eval Value} (heval : ∀ e, Unplaces id (eval e) (eval' e.unplaced))

include heval

theorem all (es : List Expr) : Unplaces id (Eval.all eval es) (Eval.all eval' (es.map Expr.unplaced)) := by
  induction es with
  | nil => exact .pure []
  | cons e rest ih => exact .bind (heval e) fun v => .bind ih fun vs => .pure (v :: vs)

theorem optional (e : Option Expr) :
    Unplaces id (Eval.optional eval e) (Eval.optional eval' (e.map Expr.unplaced)) := by
  cases e with
  | none => exact .pure Value.nil
  | some e => exact heval e

theorem binary (op : Operator) (left right : Expr) (offset : Nat) :
    Unplaces id (Eval.binary eval op left right offset) (Eval.binary eval' op left.unplaced right.unplaced 0) := by
  unfold Eval.binary
  rw [left.offset_unplaced, right.offset_unplaced]
  refine .bind (heval left) fun l => .ite ?_ ?_
  · refine .bind (ofExcept (l.asBoolean_unplaced left.offset)) fun decided => .ite (.pure l) ?_
    exact .bind (heval right) fun r => ofExcept (Operation.logic_unplaced op l r right.offset)
  · refine .bind (heval right) fun r => Translates.get_bind fun s => ?_
    exact ofExcept (Operation.binary_unplaced s.heap op l r offset)

theorem element (env : Env) (name : String) (index : Expr) (offset : Nat) :
    Unplaces id (Eval.element eval env name index offset) (Eval.element eval' env name index.unplaced 0) := by
  unfold Eval.element
  rw [index.offset_unplaced]
  refine .bind (resolve env name offset) fun found => .bind (heval index) fun position => ?_
  refine .bind (valueOf found.1) fun held => .bind (ofExcept (held.asList_unplaced offset)) fun list => ?_
  refine Translates.get_bind fun s => .bind (ofExcept (position.asInteger_unplaced index.offset)) fun n => ?_
  exact .bind (ofExcept (Value.checkedIndex_unplaced n _ index.offset)) fun i => .pure _

theorem storeElement (ref : VariableRef) (index value receiver : Expr) (offset : Nat) :
    Unplaces id (Eval.storeElement eval ref index value receiver offset)
      (Eval.storeElement eval' ref index.unplaced value.unplaced receiver.unplaced 0) := by
  unfold Eval.storeElement
  rw [index.offset_unplaced, receiver.offset_unplaced]
  refine .bind (heval index) fun position => .bind (heval value) fun v => .bind (valueOf ref) fun held => ?_
  refine .bind (ofExcept (held.asList_unplaced receiver.offset)) fun list => Translates.get_bind fun s => ?_
  refine .ite (fail (.cyclicList ref.name offset)) ?_
  refine .bind (ofExcept (position.asInteger_unplaced index.offset)) fun n => ?_
  exact .bind (ofExcept (Value.checkedIndex_unplaced n _ index.offset)) fun i => .modify fun _ => rfl

omit heval in
theorem receiver (env : Env) (name : String) (nameOffset offset : Nat) :
    Unplaces id (Eval.receiver env name nameOffset offset) (Eval.receiver env name 0 0) :=
  .bind (resolve env name nameOffset) fun found => .ite (.pure found.1) (fail (.immutableAssignment name offset))

theorem assign (env : Env) (target value : Expr) (offset : Nat) :
    Unplaces id (Eval.assign eval env target value offset)
      (Eval.assign eval' env target.unplaced value.unplaced 0) := by
  cases target with
  | «variable» node name =>
    refine .bind (receiver env name node.offset offset) fun ref => .bind (heval value) fun v => ?_
    exact .modify fun s => s.setValue_unplaced ref v
  | element node name index =>
    refine .bind (receiver env name node.offset offset) fun ref => ?_
    exact storeElement heval ref index value (.element node name index) offset
  | literal | group | binary | call | list => exact fail (.typeFault .receiver offset)

theorem select (subject : Value) (fallback : Option (List Statement)) (cases : List Case) :
    Unplaces (Option.map (List.map Statement.unplaced)) (Eval.select eval subject fallback cases)
      (Eval.select eval' subject (fallback.map (List.map Statement.unplaced)) (cases.map Case.unplaced)) := by
  induction cases generalizing fallback with
  | nil => exact .pure fallback
  | cons arm rest ih =>
    obtain ⟨offset, value, body⟩ := arm
    rw [List.map_cons, Case.unplaced, blockUnplaced_eq]
    -- A default arm is only remembered, unless there is one already.
    cases value with
    | none =>
      have hfallback := ih (fallback.or (some body))
      rw [Option.map_or] at hfallback
      exact hfallback
    | some value =>
      refine .bind (heval value) fun v => Translates.get_bind fun s => ?_
      exact .ite (.pure (some body)) (ih fallback)

end

section

variable {exec exec' : Statement → Eval Flow} (hexec : ∀ s, Unplaces id (exec s) (exec' s.unplaced))

include hexec

theorem inOrder (body : List Statement) :
    Unplaces id (Eval.inOrder exec body) (Eval.inOrder exec' (body.map Statement.unplaced)) := by
  induction body with
  | nil => exact .pure Flow.normal
  | cons first rest ih =>
    refine .bind (hexec first) fun flow => ?_
    cases flow with
    | returned v => exact .pure (Flow.returned v)
    | normal => exact ih

end

theorem block {exec exec' : Env → Statement → Eval Flow}
    (hexec : ∀ env s, Unplaces id (exec env s) (exec' env s.unplaced)) (env : Env) (body : List Statement) :
    Unplaces id (Eval.block exec env body) (Eval.block exec' env (body.map Statement.unplaced)) :=
  inScope fun inner => inOrder (hexec inner) body

theorem bindParameters (env : Env) (ps : List Parameter) (values : List Value) :
    Unplaces id (Eval.bindParameters env ps values)
      (Eval.bindParameters env (ps.map Parameter.unplaced) values) := by
  induction ps generalizing values with
  | nil => exact .pure ()
  | cons p rest ih =>
    cases values with
    | nil => exact .pure ()
    | cons v values => exact .bind (define env p.name ⟨true, v⟩ p.node.offset) fun _ => ih values

/-! ## §5 Everything together -/

/-- With `n` as fuel, all evaluators do the same without offsets. -/
structure Everywhere (n : Nat) : Prop where
  expression : ∀ env e, Unplaces id (Eval.expression n env e) (Eval.expression n env e.unplaced)
  call : ∀ env name arguments offset, Unplaces id (Eval.call n env name arguments offset)
    (Eval.call n env name arguments 0)
  statement : ∀ env s, Unplaces id (Eval.statement n env s) (Eval.statement n env s.unplaced)
  loop : ∀ env condition body, Unplaces id (Eval.loop n env condition body)
    (Eval.loop n env condition.unplaced (body.map Statement.unplaced))

namespace Everywhere

variable {n : Nat}

theorem expression_succ (h : Everywhere n) (env : Env) (e : Expr) :
    Unplaces id (Eval.expression (n + 1) env e) (Eval.expression (n + 1) env e.unplaced) := by
  cases e with
  | literal node value => exact .pure (Value.ofLiteral value)
  | group node inner => exact h.expression env inner
  | binary node op left right => exact binary (h.expression env) op left right node.offset
  | «variable» node name => exact .bind (resolve env name node.offset) fun found => .pure _
  | element node name index => exact element (h.expression env) env name index node.offset
  | call node name arguments =>
    rw [Expr.unplaced, Expr.allUnplaced_eq]
    exact .bind (all (h.expression env) arguments) fun values => h.call env name values node.offset
  | list node elements =>
    rw [Expr.unplaced, Expr.allUnplaced_eq]
    exact .bind (all (h.expression env) elements) fun values => newList values

/-- The function that is found has lost its offsets in the store. -/
theorem call_succ (h : Everywhere n) (env : Env) (name : String) (arguments : List Value) (offset : Nat) :
    Unplaces id (Eval.call (n + 1) env name arguments offset) (Eval.call (n + 1) env name arguments 0) := by
  refine Translates.get_bind fun s => ?_
  rw [s.findFunction?_unplaced]
  cases s.findFunction? env name arguments.length with
  | none => exact fail (.unknownFunction name arguments.length offset)
  | some callable =>
    cases callable with
    | builtin which => exact builtin which arguments offset
    | defined f closure =>
      cases closure with
      | none => exact fail (.unknownFunction name arguments.length offset)
      | some closure =>
        refine inScope fun inner => .bind (bindParameters inner f.parameters arguments) fun _ => ?_
        refine .bind (inOrder (h.statement inner) f.body) fun flow => ?_
        cases flow <;> exact .pure _

theorem statement_succ (h : Everywhere n) (env : Env) (s : Statement) :
    Unplaces id (Eval.statement (n + 1) env s) (Eval.statement (n + 1) env s.unplaced) := by
  cases s with
  | expression offset e => exact .bind (.discard (h.expression env e)) fun _ => .pure Flow.normal
  | declaration node name type value =>
    refine .bind (optional (h.expression env) value) fun v => ?_
    exact .bind (define env name ⟨true, v⟩ node.offset) fun _ => .pure Flow.normal
  | assignment offset target value =>
    exact .bind (assign (h.expression env) env target value offset) fun _ => .pure Flow.normal
  | conditional offset condition onTrue onFalse =>
    rw [Statement.unplaced, blockUnplaced_eq, blockUnplaced_eq, Eval.statement, Eval.statement]
    rw [condition.offset_unplaced]
    refine .bind (h.expression env condition) fun test => ?_
    refine .bind (ofExcept (test.asBoolean_unplaced condition.offset)) fun holds => ?_
    simp only [id, ← apply_ite (List.map Statement.unplaced), List.isEmpty_map]
    exact .ite (.pure Flow.normal) (block h.statement env _)
  | switch offset condition cases =>
    rw [Statement.unplaced, armsUnplaced_eq]
    refine .bind (h.expression env condition) fun subject => ?_
    refine .bind (select (h.expression env) subject none cases) fun body => ?_
    cases body with
    | none => exact .pure Flow.normal
    | some body => exact block h.statement env body
  | loop offset condition body =>
    rw [Statement.unplaced, blockUnplaced_eq]
    exact h.loop env condition body
  | returning offset value => exact .bind (h.expression env value) fun v => .pure (Flow.returned v)

theorem loop_succ (h : Everywhere n) (env : Env) (condition : Expr) (body : List Statement) :
    Unplaces id (Eval.loop (n + 1) env condition body)
      (Eval.loop (n + 1) env condition.unplaced (body.map Statement.unplaced)) := by
  rw [Eval.loop, Eval.loop, condition.offset_unplaced]
  refine .bind (h.expression env condition) fun test => ?_
  refine .bind (ofExcept (test.asBoolean_unplaced condition.offset)) fun holds => .ite ?_ (.pure Flow.normal)
  refine .bind (block h.statement env body) fun flow => ?_
  cases flow with
  | returned v => exact .pure (Flow.returned v)
  | normal => exact h.loop env condition body

end Everywhere

theorem everything (n : Nat) : Everywhere n := by
  -- The four evaluators call each other with less fuel.
  induction n with
  | zero =>
    exact ⟨fun _ _ => .throw Stop.outOfFuel, fun _ _ _ _ => .throw Stop.outOfFuel, fun _ _ => .throw Stop.outOfFuel,
      fun _ _ _ => .throw Stop.outOfFuel⟩
  | succ n ih => exact ⟨ih.expression_succ, ih.call_succ, ih.statement_succ, ih.loop_succ⟩

theorem globals (fuel : Nat) (gs : List Global) :
    Unplaces id (Eval.globals fuel gs) (Eval.globals fuel (gs.map Global.unplaced)) := by
  induction gs with
  | nil => exact .pure ()
  | cons g rest ih =>
    refine .bind (optional ((everything fuel).expression .globals) g.value) fun v => ?_
    exact .bind (define .globals g.name ⟨g.mutable, v⟩ g.node.offset) fun _ => ih

theorem defineFunction (f : Function) : Unplaces id (Eval.defineFunction f) (Eval.defineFunction f.unplaced) := by
  refine Translates.get_bind fun s => ?_
  have hdefine : s.unplaced.defineFunction? 0 f.unplaced.name f.unplaced.arity (.defined f.unplaced (some .globals)) =
      (s.defineFunction? 0 f.name f.arity (.defined f (some .globals))).map Store.unplaced := by
    rw [f.arity_unplaced]
    exact s.defineFunction?_unplaced 0 f.name f.arity (.defined f (some .globals))
  rw [hdefine]
  cases s.defineFunction? 0 f.name f.arity (.defined f (some .globals)) with
  | none => exact fail (.alreadyDefined f.name f.node.offset)
  | some t => exact .set t

theorem functions (fs : List Function) :
    Unplaces id (Eval.functions fs) (Eval.functions (fs.map Function.unplaced)) := by
  induction fs with
  | nil => exact .pure ()
  | cons f rest ih => exact .bind (defineFunction f) fun _ => ih

end Unplaces

theorem mainOffset_unplaced (p : Program) : mainOffset p.unplaced = 0 := by
  unfold mainOffset Program.unplaced
  simp only [List.find?_map, Option.map_map]
  cases List.find? _ p.functions <;> rfl

/-- With any amount of fuel, a tree without offsets does what the tree does. -/
theorem program_unplaced (fuel : Nat) (p : Program) :
    Unplaces id (Eval.program fuel p) (Eval.program fuel p.unplaced) := by
  refine .bind (Unplaces.globals fuel p.globals) fun _ => .bind (Unplaces.functions p.functions) fun _ => ?_
  rw [mainOffset_unplaced]
  exact (Unplaces.everything fuel).call .globals "main" [] (mainOffset p)

end Eval

end BlockLang
