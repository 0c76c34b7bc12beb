import BlockLang.Typing.Statement

/-!
# Checking programs

The entry point is checked first, then the globals and then the functions, each in the order of the program.  A
function is defined before its body is checked, so it may call itself and every function before it.
-/

namespace BlockLang

namespace Checker

/-! ## §1 Globals -/

/-- The type of a global from the type that is written and its initial value. -/
def globalType (g : Global) (declared : Option Ty) : Checker Ty :=
  match g.value with
  | some (.list node items) => do
    let element := declared.getD .any
    elements element items
    setType node.id element
  | some value => do
    let found ← expression value
    match declared with
    | some target =>
      if target.accepts found then return target
      else throw (.variableMismatch g.name target found g.node.offset)
    | none => return found
  | none =>
    match declared with
    | some target => return target
    | none => throw (.missingDeclarationType g.name g.node.offset)

/-- Checks a global and defines it. -/
def global (g : Global) : Checker Unit := do
  let declared ← resolveType? g.type g.node.offset
  let type ← globalType g declared
  defineVariable g.node ⟨g.name, mangle g.name, type, g.mutable, g.isList⟩

/-! ## §2 Functions -/

/-- The types of parameters. -/
def parameterTypes : List Parameter → Checker (List Ty)
  | [] => return []
  | p :: rest => do
    let t ← resolveType p.type p.node.offset
    return t :: (← parameterTypes rest)

/-- The return type of a function.  Where none is written, the entry point returns an integer and every other
function nothing. -/
def returnType (f : Function) : Checker Ty :=
  match f.returns with
  | some name => resolveType name f.node.offset
  | none => return if f.isEntry then .integer else .nil

/-- Defines the parameters in the innermost scope. -/
def parameters : List Parameter → List Ty → Checker Unit
  | p :: rest, t :: types => do
    defineVariable p.node ⟨p.name, ← freshName p.name, t, true, false⟩
    parameters rest types
  | _, _ => return ()

/-- Prepares for the body of a function that returns the given type. -/
def enterFunction (returns : Ty) : Checker Unit :=
  modify fun s => { s with returns := returns, locals := .empty }

/-- Defines a function and checks its body, which shares a scope with the parameters. -/
def function (f : Function) : Checker Unit := do
  let types ← parameterTypes f.parameters
  let returns ← returnType f
  defineFunction f.node ⟨f.name, mangle f.name, types, returns⟩
  enterFunction returns
  inScope do
    parameters f.parameters types
    statements f.body

/-! ## §3 Programs -/

/-- Fails unless the entry point exists and returns an integer. -/
def entryPoint (p : Program) : Checker Unit :=
  match p.functions.find? Function.isEntry with
  | none => throw .missingMain
  | some main => do
    let returns ← returnType main
    if returns = .integer then return () else throw (.invalidMainReturn returns main.node.offset)

/-- Checks globals in order. -/
def globals : List Global → Checker Unit
  | [] => return ()
  | g :: rest => do
    global g
    globals rest

/-- Checks functions in order. -/
def functions : List Function → Checker Unit
  | [] => return ()
  | f :: rest => do
    function f
    functions rest

/-- Checks a program. -/
def program (p : Program) : Checker Unit := do
  entryPoint p
  globals p.globals
  functions p.functions

end Checker

/-- The side table of a program; `builtins` are the functions that exist before it. -/
def check (builtins : List FunctionInfo) (p : Program) : Except TypingError SideTable :=
  match (Checker.program p).run (CheckerState.withFunctions builtins) with
  | .ok _ s => .ok s.table
  | .error e _ => .error e

end BlockLang
