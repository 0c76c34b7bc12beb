import BlockLang.Run.Evaluation

/-!
# Sessions

A session keeps a store between separate evaluations and has a current environment, in which further scopes can
be opened and closed by hand.  A function may be defined with the current environment as its closure; it cannot
be called any more once the innermost scope of that environment has been closed.
-/

namespace BlockLang

/-- A store and the environment in which the next evaluation takes place. -/
structure Session where
  store : Store
  env : Env

namespace Session

/-- A session in the globals of a new store. -/
def start (store : Store) : Session := ⟨store, .globals⟩

/-- The number of scopes of the current environment. -/
def depth (s : Session) : Nat := s.env.length

/-- Evaluates something in the current environment. -/
def evaluate {α : Type} (s : Session) (body : Env → Eval α) : Except Stop α × Session :=
  match body s.env s.store with
  | .ok a t => (.ok a, { s with store := t })
  | .error e t => (.error e, { s with store := t })

/-! ## §1 Scopes -/

/-- Opens a scope inside the current environment. -/
def push (s : Session) : Session :=
  ⟨s.store.openScope, s.store.scopes.size :: s.env⟩

/-- Closes the innermost scope of the current environment; the globals stay. -/
def pop (s : Session) : Session :=
  match s.env with
  | scope :: outer@(_ :: _) =>
    let closed := s.store.closeScope
    ⟨{ closed with scopes := closed.scopes.map fun f => f.mapFunctions (Callable.forget scope) }, outer⟩
  | _ => s

/-! ## §2 Names -/

/-- The innermost scope. -/
def innermost (s : Session) : Nat := s.env.headD 0

/-- Keeps the session unless the store could be changed; tells whether it could. -/
def change (s : Session) (store? : Option Store) : Bool × Session :=
  match store? with
  | some store => (true, { s with store := store })
  | none => (false, s)

/-- Defines a variable in the innermost scope. -/
def defineVariable (s : Session) (name : String) (cell : Cell) : Bool × Session :=
  s.change (s.store.defineVariable? ⟨s.innermost, name⟩ cell)

/-- Defines a builtin in the innermost scope under any name and number of parameters. -/
def defineBuiltin (s : Session) (name : String) (arity : Nat) (which : Builtin) : Bool × Session :=
  s.change (s.store.defineFunction? s.innermost name arity (.builtin which))

/-- Defines a function among the globals with the current environment as its closure, or with none. -/
def defineFunction (s : Session) (f : Function) (closed : Bool) : Bool × Session :=
  s.change (s.store.defineFunction? 0 f.name f.arity (.defined f (if closed then none else some s.env)))

/-- The cell that a name stands for. -/
def cell? (s : Session) (name : String) : Option Cell :=
  (s.store.findVariable? s.env name).map Prod.snd

/-- The function that a name stands for, by its number of arguments. -/
def findFunction? (s : Session) (name : String) (arity : Nat) : Option Callable :=
  s.store.findFunction? s.env name arity

/-- Stores a value into the variable that a name stands for, mutable or not; tells whether there is one. -/
def setVariable (s : Session) (name : String) (v : Value) : Bool × Session :=
  s.change ((s.store.findVariable? s.env name).map fun (ref, _) => s.store.setValue ref v)

end Session

end BlockLang
