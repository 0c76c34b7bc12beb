import BlockLang.Frame
import BlockLang.Run.Sink
import BlockLang.Value.Heap

/-!
# Stores

The whole state of a run: the scopes that are open, the lists that have been created, and what has been printed.
Scopes are numbered in the order in which they were opened, and the one opened last is closed first.  An
environment is the path of scopes in which names are looked up, the innermost first; scope 0 holds the globals.
-/

namespace BlockLang

/-! ## §1 What names stand for -/

/-- The path of scopes, innermost first, in which names are looked up. -/
abbrev Env := List Nat

/-- The environment of the globals. -/
def Env.globals : Env := [0]

/-- What a variable holds, and whether it may be assigned. -/
structure Cell where
  mutable : Bool
  value : Value
deriving DecidableEq, Repr, Inhabited

/-- A function that exists without being defined by a program. -/
inductive Builtin where
  /-- Prints its only argument and a line feed. -/
  | print
deriving DecidableEq, Repr, Inhabited

/-- What a function name stands for. -/
inductive Callable where
  | builtin (which : Builtin)
  /-- A defined function with the environment it was defined in, as long as that is still open. -/
  | defined (definition : Function) (closure : Option Env)
deriving Inhabited

/-- The function can no longer be called if it was defined in the given scope. -/
def Callable.forget (scope : Nat) : Callable → Callable
  | .defined f (some env) => .defined f (if env.head? = some scope then none else some env)
  | other => other

/-- A variable of one particular scope. -/
structure VariableRef where
  scope : Nat
  name : String
deriving DecidableEq, Repr, Inhabited

/-- The names of one open scope. -/
abbrev RunFrame := Frame Cell Callable

/-! ## §2 Stores -/

/-- The state of a run. -/
structure Store where
  /-- The open scopes, by number. -/
  scopes : Array RunFrame
  /-- The lists. -/
  heap : Heap
  /-- The output. -/
  sink : Sink

namespace Store

/-- The frame of globals before any program has run. -/
def builtinFrame : RunFrame :=
  ⟨[], [(("print", 1), .builtin .print)]⟩

/-- The state before a run whose output may be limited. -/
def initial (limit : Option Nat) : Store :=
  ⟨#[builtinFrame], .empty, .withLimit limit⟩

instance : Inhabited Store := ⟨initial none⟩

/-! ## §3 Look-up -/

/-- The cell of a variable. -/
def cell? (s : Store) (ref : VariableRef) : Option Cell :=
  match s.scopes[ref.scope]? with
  | some frame => frame.findVariable? ref.name
  | none => none

/-- What a variable holds. -/
def valueOf (s : Store) (ref : VariableRef) : Value :=
  ((s.cell? ref).map Cell.value).getD .nil

/-- The variable that a name stands for in an environment, with its cell. -/
def findVariable? (s : Store) (env : Env) (name : String) : Option (VariableRef × Cell) :=
  env.findSome? fun scope => (s.cell? ⟨scope, name⟩).map fun cell => (⟨scope, name⟩, cell)

/-- The function that a name stands for in an environment, by its number of arguments. -/
def findFunction? (s : Store) (env : Env) (name : String) (arity : Nat) : Option Callable :=
  env.findSome? fun scope =>
    match s.scopes[scope]? with
    | some frame => frame.findFunction? name arity
    | none => none

/-! ## §4 Changes -/

/-- Changes the frame of a scope, unless the change is refused or the scope is not open. -/
def updateScope? (s : Store) (scope : Nat) (change : RunFrame → Option RunFrame) : Option Store :=
  match s.scopes[scope]? with
  | some frame => (change frame).map fun f => { s with scopes := s.scopes.setIfInBounds scope f }
  | none => none

/-- Defines a variable in a scope; none if the scope has its name already. -/
def defineVariable? (s : Store) (ref : VariableRef) (cell : Cell) : Option Store :=
  s.updateScope? ref.scope fun f => f.defineVariable? ref.name cell

/-- Defines a function in a scope; none if the scope has its name and arity already. -/
def defineFunction? (s : Store) (scope : Nat) (name : String) (arity : Nat) (g : Callable) : Option Store :=
  s.updateScope? scope fun f => f.defineFunction? name arity g

/-- Stores a value into a variable, mutable or not. -/
def setValue (s : Store) (ref : VariableRef) (v : Value) : Store :=
  { s with scopes := s.scopes.modify ref.scope fun f => f.updateVariable ref.name fun c => { c with value := v } }

/-- Opens a scope, whose number is the number of scopes before. -/
def openScope (s : Store) : Store :=
  { s with scopes := s.scopes.push .empty }

/-- Closes the scope opened last. -/
def closeScope (s : Store) : Store :=
  { s with scopes := s.scopes.pop }

/-- Creates a list. -/
def allocate (s : Store) (elements : List Value) : ListRef × Store :=
  let (ref, heap) := s.heap.allocate elements
  (ref, { s with heap := heap })

/-- Replaces one element of a list. -/
def setElement (s : Store) (ref : ListRef) (index : Nat) (v : Value) : Store :=
  { s with heap := s.heap.setElement ref index v }

end Store

end BlockLang
