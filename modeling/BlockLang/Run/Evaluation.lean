import BlockLang.Run.Operation
import BlockLang.Run.Store

/-!
# Evaluation

Running programs.  Operands and arguments are evaluated from left to right; whatever scopes a block or a call
opens are closed again when it ends, in whatever way it ends.

Evaluation takes an amount of fuel that bounds its depth and the rounds of its loops.  Running out of fuel is an
outcome of its own, beside values and errors, so more fuel never changes an outcome that has been reached.
-/

namespace BlockLang

/-- Why an evaluation ends without a result. -/
inductive Stop where
  /-- The program fails. -/
  | error (e : RunError)
  /-- The fuel is used up. -/
  | outOfFuel
deriving DecidableEq, Repr, Inhabited

/-- An evaluation that yields an `α`.  The store it has reached is kept however it ends. -/
abbrev Eval (α : Type) := EStateM Stop Store α

/-- How a statement ends. -/
inductive Flow where
  /-- The next statement follows. -/
  | normal
  /-- The function ends with a value. -/
  | returned (v : Value)
deriving DecidableEq, Repr, Inhabited

namespace Eval

/-! ## §1 Single steps -/

/-- Fails with a runtime error. -/
def fail {α : Type} (e : RunError) : Eval α :=
  throw (.error e)

/-- The result of an operation that may fail. -/
def ofExcept {α : Type} : Except RunError α → Eval α
  | .ok a => return a
  | .error e => fail e

/-- The variable that a name stands for, with its cell. -/
def resolve (env : Env) (name : String) (offset : Nat) : Eval (VariableRef × Cell) := do
  match (← get).findVariable? env name with
  | some found => return found
  | none => fail (.unknownVariable name offset)

/-- What a variable holds now. -/
def valueOf (ref : VariableRef) : Eval Value := do
  return (← get).valueOf ref

/-- Defines a variable in the innermost scope of an environment. -/
def define (env : Env) (name : String) (cell : Cell) (offset : Nat) : Eval Unit := do
  match (← get).defineVariable? ⟨env.headD 0, name⟩ cell with
  | some s => set s
  | none => fail (.alreadyDefined name offset)

/-- Creates a list. -/
def newList (elements : List Value) : Eval Value :=
  modifyGet fun s =>
    let (ref, t) := s.allocate elements
    (.list ref, t)

/-- Runs a body in a fresh scope inside an environment; the scope is closed however the body ends. -/
def inScope {α : Type} (env : Env) (body : Env → Eval α) : Eval α := fun s =>
  match body (s.scopes.size :: env) s.openScope with
  | .ok a t => .ok a t.closeScope
  | .error e t => .error e t.closeScope

/-! ## §2 Builtins -/

/-- Writes a text to the output. -/
def write (text : String) : Eval Unit := do
  let complete ← modifyGet fun s =>
    let (complete, sink) := s.sink.write text
    (complete, { s with sink := sink })
  if complete then return () else fail (.outputFailed Sink.refusal)

/-- Calls a builtin. -/
def builtin (which : Builtin) (arguments : List Value) (offset : Nat) : Eval Value :=
  match which, arguments with
  | .print, [v] => do
    write ((← get).heap.display v ++ "\n")
    return .nil
  | .print, _ => fail (.unknownFunction "print" arguments.length offset)

/-! ## §3 Sequences

The evaluators of expressions and statements are parameters here. -/

/-- Evaluates expressions from left to right. -/
def all (eval : Expr → Eval Value) : List Expr → Eval (List Value)
  | [] => return []
  | e :: rest => do
    let v ← eval e
    return v :: (← all eval rest)

/-- Executes statements in order up to the first that returns. -/
def inOrder (exec : Statement → Eval Flow) : List Statement → Eval Flow
  | [] => return .normal
  | first :: rest => do
    match ← exec first with
    | .returned v => return .returned v
    | .normal => inOrder exec rest

/-- Executes statements in a fresh scope. -/
def block (exec : Env → Statement → Eval Flow) (env : Env) (body : List Statement) : Eval Flow :=
  inScope env fun inner => inOrder (exec inner) body

/-- The value of an optional expression. -/
def optional (eval : Expr → Eval Value) : Option Expr → Eval Value
  | none => return .nil
  | some e => eval e

/-- Binds parameters to arguments in the innermost scope. -/
def bindParameters (env : Env) : List Parameter → List Value → Eval Unit
  | p :: rest, v :: values => do
    define env p.name ⟨true, v⟩ p.node.offset
    bindParameters env rest values
  | _, _ => return ()

/-! ## §4 Expressions -/

/-- A binary expression.  The left operand of `&&` and `||` alone may decide; its value is then the result. -/
def binary (eval : Expr → Eval Value) (op : Operator) (left right : Expr) (offset : Nat) : Eval Value := do
  let l ← eval left
  if op = .and ∨ op = .or then
    let decided ← ofExcept (l.asBoolean left.offset)
    if decided = (op = .or) then
      return l
    else
      let r ← eval right
      ofExcept (Operation.logic op l r right.offset)
  else
    let r ← eval right
    ofExcept (Operation.binary (← get).heap op l r offset)

/-- One element of the list that a variable holds once the index has been evaluated. -/
def element (eval : Expr → Eval Value) (env : Env) (name : String) (index : Expr) (offset : Nat) :
    Eval Value := do
  let (ref, _) ← resolve env name offset
  let position ← eval index
  let list ← ofExcept ((← valueOf ref).asList offset)
  let elements := (← get).heap.elements list
  let n ← ofExcept (position.asInteger index.offset)
  let i ← ofExcept (Value.checkedIndex n elements.length index.offset)
  return elements.getD i .nil

/-! ## §5 Assignments -/

/-- Stores a value into an element of the list that a variable holds once index and value have been evaluated.
A list may not come to contain itself. -/
def storeElement (eval : Expr → Eval Value) (ref : VariableRef) (index value receiver : Expr) (offset : Nat) :
    Eval Unit := do
  let position ← eval index
  let v ← eval value
  let list ← ofExcept ((← valueOf ref).asList receiver.offset)
  let heap := (← get).heap
  if heap.contains v list then
    fail (.cyclicList ref.name offset)
  else
    let n ← ofExcept (position.asInteger index.offset)
    let i ← ofExcept (Value.checkedIndex n (heap.elements list).length index.offset)
    modify fun s => s.setElement list i v

/-- The mutable variable that an assignment changes. -/
def receiver (env : Env) (name : String) (nameOffset offset : Nat) : Eval VariableRef := do
  let (ref, cell) ← resolve env name nameOffset
  if cell.mutable then return ref else fail (.immutableAssignment name offset)

/-- An assignment.  The variable is resolved before anything is evaluated. -/
def assign (eval : Expr → Eval Value) (env : Env) (target value : Expr) (offset : Nat) : Eval Unit :=
  match target with
  | .variable node name => do
    let ref ← receiver env name node.offset offset
    let v ← eval value
    modify fun s => s.setValue ref v
  | .element node name index => do
    let ref ← receiver env name node.offset offset
    storeElement eval ref index value target offset
  | _ => fail (.typeFault .receiver offset)

/-! ## §6 Switches -/

/-- The statements of the first arm whose value equals the subject, or else of the first arm without a value,
which is `fallback` if it has been passed already.  No value is evaluated after the one that equals. -/
def select (eval : Expr → Eval Value) (subject : Value) :
    (fallback : Option (List Statement)) → List Case → Eval (Option (List Statement))
  | fallback, [] => return fallback
  | fallback, .mk _ (some value) body :: rest => do
    let v ← eval value
    if (← get).heap.same v subject then return some body else select eval subject fallback rest
  | fallback, .mk _ none body :: rest => select eval subject (fallback.or (some body)) rest

/-! ## §7 Everything together -/

mutual

/-- Evaluates an expression. -/
def expression : (fuel : Nat) → Env → Expr → Eval Value
  | 0, _, _ => throw .outOfFuel
  | n + 1, env, e =>
    match e with
    | .literal _ value => return .ofLiteral value
    | .group _ inner => expression n env inner
    | .binary node op left right => binary (expression n env) op left right node.offset
    | .variable node name => do
      let (_, cell) ← resolve env name node.offset
      return cell.value
    | .element node name index => element (expression n env) env name index node.offset
    | .call node name arguments => do
      let values ← all (expression n env) arguments
      call n env name values node.offset
    | .list _ elements => do
      newList (← all (expression n env) elements)

/-- Calls a function by name and number of arguments. -/
def call : (fuel : Nat) → Env → String → List Value → (offset : Nat) → Eval Value
  | 0, _, _, _, _ => throw .outOfFuel
  | n + 1, env, name, arguments, offset => do
    match (← get).findFunction? env name arguments.length with
    | some (.builtin which) => builtin which arguments offset
    | some (.defined f (some closure)) => inScope closure fun inner => do
      bindParameters inner f.parameters arguments
      match ← inOrder (statement n inner) f.body with
      | .returned v => return v
      | .normal => return .nil
    | some (.defined _ none) | none => fail (.unknownFunction name arguments.length offset)

/-- Executes a statement. -/
def statement : (fuel : Nat) → Env → Statement → Eval Flow
  | 0, _, _ => throw .outOfFuel
  | n + 1, env, s =>
    match s with
    | .expression _ e => do
      discard (expression n env e)
      return .normal
    | .declaration node name _ value => do
      let v ← optional (expression n env) value
      define env name ⟨true, v⟩ node.offset
      return .normal
    | .assignment offset target value => do
      assign (expression n env) env target value offset
      return .normal
    | .conditional _ condition onTrue onFalse => do
      let holds ← ofExcept ((← expression n env condition).asBoolean condition.offset)
      let branch := if holds then onTrue else onFalse
      if branch.isEmpty then return .normal else block (statement n) env branch
    | .switch _ condition cases => do
      let subject ← expression n env condition
      match ← select (expression n env) subject none cases with
      | some body => block (statement n) env body
      | none => return .normal
    | .loop _ condition body => loop n env condition body
    | .returning _ value => do
      return .returned (← expression n env value)

/-- Executes the body of a loop as long as its condition holds. -/
def loop : (fuel : Nat) → Env → Expr → List Statement → Eval Flow
  | 0, _, _, _ => throw .outOfFuel
  | n + 1, env, condition, body => do
    if ← ofExcept ((← expression n env condition).asBoolean condition.offset) then
      match ← block (statement n) env body with
      | .returned v => return .returned v
      | .normal => loop n env condition body
    else
      return .normal

end

/-! ## §8 Programs -/

/-- Initialises globals in order. -/
def globals (fuel : Nat) : List Global → Eval Unit
  | [] => return ()
  | g :: rest => do
    let v ← optional (expression fuel .globals) g.value
    define .globals g.name ⟨g.mutable, v⟩ g.node.offset
    globals fuel rest

/-- Defines a function among the globals. -/
def defineFunction (f : Function) : Eval Unit := do
  match (← get).defineFunction? 0 f.name f.arity (.defined f (some .globals)) with
  | some s => set s
  | none => fail (.alreadyDefined f.name f.node.offset)

/-- Defines functions in order. -/
def functions : List Function → Eval Unit
  | [] => return ()
  | f :: rest => do
    defineFunction f
    functions rest

/-- The offset at which a missing `main` is reported: that of the first function so named. -/
def mainOffset (p : Program) : Nat :=
  ((p.functions.find? fun f => f.name = "main").map fun f => f.node.offset).getD 0

/-- Runs a program: globals, then functions, then `main`, whose value is the result. -/
def program (fuel : Nat) (p : Program) : Eval Value := do
  globals fuel p.globals
  functions p.functions
  call fuel .globals "main" [] (mainOffset p)

end Eval

end BlockLang
