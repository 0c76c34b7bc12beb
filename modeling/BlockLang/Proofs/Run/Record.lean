import BlockLang.Proofs.Typing.Lexical
import BlockLang.Run.Evaluation

/-!
# Recorded runs

A recorded run is a run that keeps a record: for every open scope, which declarations created its variables, and for
every moment of interest, the environment, the store and what happens at it.  The record does not take part in the
run: forgetting it gives back the run itself (`Traced.forget_program`), so what is proved of every moment of every
recorded run holds of every moment of every run.

The record of a run that has used up its fuel is the record of a run that is still going.

## Main definitions

- `Event`, `Moment`, `Recorder`: the record.
- `Traced.program`: a recorded run of a program.
- `Program.record`: the record with which a run with some fuel ends.
-/

namespace BlockLang

/-! ## §1 Records -/

/-- What happens at a moment of a run. -/
inductive Event where
  /-- The evaluation of an expression begins. -/
  | enters (e : Expr)
  /-- The evaluation of an expression ends with a value. -/
  | yields (e : Expr) (v : Value)
  /-- The execution of a statement begins. -/
  | begins (s : Statement)
  /-- The execution of a statement ends. -/
  | ends (s : Statement) (flow : Flow)
  /-- A call has evaluated its arguments and is about to look its function up. -/
  | calls (node : Node) (name : String) (arity : Nat)
  /-- A declaration has created a variable. -/
  | declares (node : Node) (name : String)
deriving Inhabited

/-- For every open scope, the names it defines with the ids of the nodes that declared them. -/
abbrev Origins := Array Names

/-- The declaration that created a variable. -/
def Origins.origin? (o : Origins) (ref : VariableRef) : Option Nat :=
  o[ref.scope]?.bind fun names => names.lookup ref.name

/-- A moment of a run. -/
structure Moment where
  env : Env
  store : Store
  origins : Origins
  event : Event

/-- The state of a recorded run. -/
structure Recorder where
  store : Store
  origins : Origins
  /-- The moments so far, the latest first. -/
  moments : List Moment

/-- The state before a recorded run whose output may be limited. -/
def Recorder.initial (limit : Option Nat) : Recorder :=
  ⟨.initial limit, #[[]], []⟩

/-- A recorded evaluation that yields an `α`. -/
abbrev Traced (α : Type) := EStateM Stop Recorder α

namespace Traced

/-! ## §2 Single steps -/

/-- An evaluation during which nothing is recorded. -/
def lift {α : Type} (x : Eval α) : Traced α := fun r =>
  match x r.store with
  | .ok a s => .ok a { r with store := s }
  | .error e s => .error e { r with store := s }

/-- Records a moment. -/
def note (env : Env) (event : Event) : Traced Unit :=
  modify fun r => { r with moments := ⟨env, r.store, r.origins, event⟩ :: r.moments }

/-- Records the moments before and after an evaluation. -/
def watch {α : Type} (env : Env) (before : Event) (after : α → Event) (body : Traced α) : Traced α := do
  note env before
  let a ← body
  note env (after a)
  return a

/-- Defines a variable in the innermost scope of an environment for the node that declares it. -/
def define (env : Env) (node : Node) (name : String) (cell : Cell) : Traced Unit := do
  lift (Eval.define env name cell node.offset)
  modify fun r => { r with origins := r.origins.modify (env.headD 0) fun names => (name, node.id) :: names }
  note env (.declares node name)

/-- Runs a body in a fresh scope inside an environment. -/
def inScope {α : Type} (env : Env) (body : Env → Traced α) : Traced α := fun r =>
  match body (r.store.scopes.size :: env) { r with store := r.store.openScope, origins := r.origins.push [] } with
  | .ok a t => .ok a { t with store := t.store.closeScope, origins := t.origins.pop }
  | .error e t => .error e { t with store := t.store.closeScope, origins := t.origins.pop }

/-! ## §3 Sequences -/

/-- Evaluates expressions from left to right. -/
def all (eval : Expr → Traced Value) : List Expr → Traced (List Value)
  | [] => return []
  | e :: rest => do
    let v ← eval e
    return v :: (← all eval rest)

/-- Executes statements in order up to the first that returns. -/
def inOrder (exec : Statement → Traced Flow) : List Statement → Traced Flow
  | [] => return .normal
  | first :: rest => do
    match ← exec first with
    | .returned v => return .returned v
    | .normal => inOrder exec rest

/-- Executes statements in a fresh scope. -/
def block (exec : Env → Statement → Traced Flow) (env : Env) (body : List Statement) : Traced Flow :=
  inScope env fun inner => inOrder (exec inner) body

/-- The value of an optional expression. -/
def optional (eval : Expr → Traced Value) : Option Expr → Traced Value
  | none => return .nil
  | some e => eval e

/-- Binds parameters to arguments in the innermost scope. -/
def bindParameters (env : Env) : List Parameter → List Value → Traced Unit
  | p :: rest, v :: values => do
    define env p.node p.name ⟨true, v⟩
    bindParameters env rest values
  | _, _ => return ()

/-! ## §4 Expressions and assignments -/

/-- A binary expression. -/
def binary (eval : Expr → Traced Value) (op : Operator) (left right : Expr) (offset : Nat) : Traced Value := do
  let l ← eval left
  if op = .and ∨ op = .or then
    let decided ← lift (Eval.ofExcept (l.asBoolean left.offset))
    if decided = (op = .or) then
      return l
    else
      let r ← eval right
      lift (Eval.ofExcept (Operation.logic op l r right.offset))
  else
    let r ← eval right
    let heap := (← lift get).heap
    lift (Eval.ofExcept (Operation.binary heap op l r offset))

/-- One element of the list that a variable holds once the index has been evaluated. -/
def element (eval : Expr → Traced Value) (env : Env) (name : String) (index : Expr) (offset : Nat) :
    Traced Value := do
  let (ref, _) ← lift (Eval.resolve env name offset)
  let position ← eval index
  let held ← lift (Eval.valueOf ref)
  let list ← lift (Eval.ofExcept (held.asList offset))
  let elements := (← lift get).heap.elements list
  let n ← lift (Eval.ofExcept (position.asInteger index.offset))
  let i ← lift (Eval.ofExcept (Value.checkedIndex n elements.length index.offset))
  return elements.getD i .nil

/-- Stores a value into an element of the list that a variable holds once index and value have been evaluated. -/
def storeElement (eval : Expr → Traced Value) (ref : VariableRef) (index value receiver : Expr) (offset : Nat) :
    Traced Unit := do
  let position ← eval index
  let v ← eval value
  let held ← lift (Eval.valueOf ref)
  let list ← lift (Eval.ofExcept (held.asList receiver.offset))
  let heap := (← lift get).heap
  if heap.contains v list then
    lift (Eval.fail (.cyclicList ref.name offset))
  else
    let n ← lift (Eval.ofExcept (position.asInteger index.offset))
    let i ← lift (Eval.ofExcept (Value.checkedIndex n (heap.elements list).length index.offset))
    lift (modify fun s => s.setElement list i v)

/-- An assignment. -/
def assign (eval : Expr → Traced Value) (env : Env) (target value : Expr) (offset : Nat) : Traced Unit :=
  match target with
  | .variable node name => do
    let ref ← lift (Eval.receiver env name node.offset offset)
    let v ← eval value
    lift (modify fun s => s.setValue ref v)
  | .element node name index => do
    let ref ← lift (Eval.receiver env name node.offset offset)
    storeElement eval ref index value target offset
  | _ => lift (Eval.fail (.typeFault .receiver offset))

/-- The statements of the arm that a switch selects. -/
def select (eval : Expr → Traced Value) (subject : Value) :
    (fallback : Option (List Statement)) → List Case → Traced (Option (List Statement))
  | fallback, [] => return fallback
  | fallback, .mk _ (some value) body :: rest => do
    let v ← eval value
    if (← lift get).heap.same v subject then return some body else select eval subject fallback rest
  | fallback, .mk _ none body :: rest => select eval subject (fallback.or (some body)) rest

/-! ## §5 Everything together -/

mutual

/-- Evaluates an expression. -/
def expression : (fuel : Nat) → Env → Expr → Traced Value
  | 0, _, _ => throw .outOfFuel
  | n + 1, env, e => watch env (.enters e) (.yields e) <|
    match e with
    | .literal _ value => return .ofLiteral value
    | .group _ inner => expression n env inner
    | .binary node op left right => binary (expression n env) op left right node.offset
    | .variable node name => do
      let (_, cell) ← lift (Eval.resolve env name node.offset)
      return cell.value
    | .element node name index => element (expression n env) env name index node.offset
    | .call node name arguments => do
      let values ← all (expression n env) arguments
      note env (.calls node name values.length)
      call n env name values node.offset
    | .list _ elements => do
      let values ← all (expression n env) elements
      lift (Eval.newList values)

/-- Calls a function by name and number of arguments. -/
def call : (fuel : Nat) → Env → String → List Value → (offset : Nat) → Traced Value
  | 0, _, _, _, _ => throw .outOfFuel
  | n + 1, env, name, arguments, offset => do
    match (← lift get).findFunction? env name arguments.length with
    | some (.builtin which) => lift (Eval.builtin which arguments offset)
    | some (.defined f (some closure)) => inScope closure fun inner => do
      bindParameters inner f.parameters arguments
      match ← inOrder (statement n inner) f.body with
      | .returned v => return v
      | .normal => return .nil
    | some (.defined _ none) | none => lift (Eval.fail (.unknownFunction name arguments.length offset))

/-- Executes a statement. -/
def statement : (fuel : Nat) → Env → Statement → Traced Flow
  | 0, _, _ => throw .outOfFuel
  | n + 1, env, s => watch env (.begins s) (.ends s) <|
    match s with
    | .expression _ e => do
      discard (expression n env e)
      return .normal
    | .declaration node name _ value => do
      let v ← optional (expression n env) value
      define env node name ⟨true, v⟩
      return .normal
    | .assignment offset target value => do
      assign (expression n env) env target value offset
      return .normal
    | .conditional _ condition onTrue onFalse => do
      let test ← expression n env condition
      let holds ← lift (Eval.ofExcept (test.asBoolean condition.offset))
      let branch := if holds then onTrue else onFalse
      if branch.isEmpty then return .normal else block (statement n) env branch
    | .switch _ condition cases => do
      let subject ← expression n env condition
      match ← select (expression n env) subject none cases with
      | some body => block (statement n) env body
      | none => return .normal
    | .loop _ condition body => loop n env condition body
    | .returning _ value => do
      return .returned (← expression n env value)

/-- Executes the body of a loop as long as its condition holds. -/
def loop : (fuel : Nat) → Env → Expr → List Statement → Traced Flow
  | 0, _, _, _ => throw .outOfFuel
  | n + 1, env, condition, body => do
    let test ← expression n env condition
    if ← lift (Eval.ofExcept (test.asBoolean condition.offset)) then
      match ← block (statement n) env body with
      | .returned v => return .returned v
      | .normal => loop n env condition body
    else
      return .normal

end

/-- Initialises globals in order. -/
def globals (fuel : Nat) : List Global → Traced Unit
  | [] => return ()
  | g :: rest => do
    let v ← optional (expression fuel .globals) g.value
    define .globals g.node g.name ⟨g.mutable, v⟩
    globals fuel rest

/-- Runs a program. -/
def program (fuel : Nat) (p : Program) : Traced Value := do
  globals fuel p.globals
  lift (Eval.functions p.functions)
  call fuel .globals "main" [] (Eval.mainOffset p)

/-- The state in which a recorded evaluation ends. -/
def final {α : Type} : EStateM.Result Stop Recorder α → Recorder
  | .ok _ r | .error _ r => r

end Traced

/-- The record of a run of a program with some fuel. -/
def Program.record (p : Program) (fuel : Nat) (limit : Option Nat) : Recorder :=
  Traced.final (Traced.program fuel p (.initial limit))

end BlockLang
