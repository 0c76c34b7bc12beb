import BlockLang.Tree
import BlockLang.Typing.Error
import BlockLang.Typing.RuntimeName
import BlockLang.Typing.SideTable

/-!
# Checkers

A checker walks a part of a tree, resolves its names, and records what it finds in a side table.  It fails at the
first violation and then keeps what had been recorded.  Whatever scopes a checker opens it closes again, also when
it fails.
-/

namespace BlockLang

/-- What a checker carries along. -/
structure CheckerState where
  /-- The names that can be used here. -/
  scope : Scope
  /-- What has been found out so far. -/
  table : SideTable
  /-- The return type of the function being checked. -/
  returns : Ty
  /-- The runtime names taken in the function being checked. -/
  locals : LocalNames
deriving Repr, Inhabited

/-- A checker that yields an `α`. -/
abbrev Checker (α : Type) := EStateM TypingError CheckerState α

/-- A state whose root scope holds the given functions; of two with one name and arity the first counts. -/
def CheckerState.withFunctions (functions : List FunctionInfo) : CheckerState where
  scope := functions.foldl (fun scope f => (scope.defineFunction? f).getD scope) .empty
  table := .empty
  returns := .nil
  locals := .empty

namespace Checker

/-! ## §1 Recording -/

/-- Records the type of an expression and yields it. -/
def setType (id : Nat) (type : Ty) : Checker Ty := do
  modify fun s => { s with table := s.table.setType id type }
  return type

/-- Records the variable that a node stands for. -/
def setVariable (id : Nat) (v : VariableInfo) : Checker Unit :=
  modify fun s => { s with table := s.table.setVariable id v }

/-- Records the function that a node stands for. -/
def setFunction (id : Nat) (f : FunctionInfo) : Checker Unit :=
  modify fun s => { s with table := s.table.setFunction id f }

/-! ## §2 Names -/

/-- Runs a checker inside a fresh innermost scope, which is closed whether it succeeds or fails. -/
def inScope {α : Type} (body : Checker α) : Checker α := fun s =>
  match body { s with scope := s.scope.push } with
  | .ok a t => .ok a { t with scope := t.scope.pop }
  | .error e t => .error e { t with scope := t.scope.pop }

/-- Defines a variable in the innermost scope and records it for the node that declares it. -/
def defineVariable (node : Node) (v : VariableInfo) : Checker Unit := do
  let s ← get
  match s.scope.defineVariable? v with
  | none => throw (.alreadyDefined v.name node.offset)
  | some scope =>
    set { s with scope := scope }
    setVariable node.id v

/-- Defines a function in the innermost scope and records it for the node that declares it. -/
def defineFunction (node : Node) (f : FunctionInfo) : Checker Unit := do
  let s ← get
  match s.scope.defineFunction? f with
  | none => throw (.alreadyDefined f.name node.offset)
  | some scope =>
    set { s with scope := scope }
    setFunction node.id f

/-- The variable that a name stands for. -/
def resolveVariable (name : String) (offset : Nat) : Checker VariableInfo := do
  match (← get).scope.findVariable? name with
  | some v => return v
  | none => throw (.unknownVariable name offset)

/-- The function that a name stands for, by its number of arguments. -/
def resolveFunction (name : String) (arity offset : Nat) : Checker FunctionInfo := do
  match (← get).scope.findFunction? name arity with
  | some f => return f
  | none => throw (.unknownFunction name arity offset)

/-- A runtime name for a local. -/
def freshName (name : String) : Checker String :=
  modifyGet fun s =>
    let (chosen, locals) := s.locals.fresh name
    (chosen, { s with locals := locals })

/-! ## §3 Types -/

/-- The type that a name denotes. -/
def resolveType (name : String) (offset : Nat) : Checker Ty :=
  match Ty.ofName? name with
  | some t => return t
  | none => throw (.unknownType name offset)

/-- The type that a written name denotes, if there is one. -/
def resolveType? (name : Option String) (offset : Nat) : Checker (Option Ty) :=
  match name with
  | some n => do return some (← resolveType n offset)
  | none => return none

/-- Fails unless a value of type `found` may be stored where `target` is required. -/
def requireAssignable (target found : Ty) (offset : Nat) : Checker Unit :=
  if target.accepts found then return () else throw (.notAssignable target found offset)

end Checker

end BlockLang
