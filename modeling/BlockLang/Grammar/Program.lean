import BlockLang.Grammar.Statement

/-!
# Reading programs

    program   ::= global* function+
    global    ::= "LIST" identifier ":" identifier "=" "[" expression ("," expression)* "]" ";"
                | "VAR" identifier (":" identifier)? ("=" expression)? ";"
                | "VAL" identifier (":" identifier)? "=" expression ";"
    function  ::= "FUN" identifier "(" (parameter ("," parameter)*)? ")" (":" identifier)? "DO" block "END"
    parameter ::= identifier ":" identifier

Globals, functions, parameters, list literals and local declarations take their id before the nodes below them,
all other nodes after them.
-/

namespace BlockLang

namespace Reader

/-! ## §1 Globals -/

/-- Reads a list written element by element. -/
def listLiteral (expression : Reader Expr) (n : Nat) : Reader Expr := do
  let start ← offset
  let id ← freshId
  expect "["
  let first ← expression
  let more ← many (·.peek ",") (advance *> expression) n
  expect "]"
  return .list ⟨id, start⟩ (first :: more)

/-- Reads a list global after its `LIST`. -/
def listGlobal (expression : Reader Expr) (n : Nat) (node : Node) : Reader Global := do
  let name ← identifier
  expect ":"
  let type ← identifier
  expect "="
  let value ← listLiteral expression n
  return ⟨node, name, true, some type, some value⟩

/-- Reads a variable global after its `VAR`. -/
def variableGlobal (expression : Reader Expr) (node : Node) : Reader Global := do
  let name ← identifier
  let type ← typeName?
  let value ← initializer? expression
  return ⟨node, name, true, type, value⟩

/-- Reads a constant global from its `VAL` on. -/
def constantGlobal (expression : Reader Expr) (node : Node) : Reader Global := do
  expect "VAL"
  let name ← identifier
  let type ← typeName?
  expect "="
  let value ← expression
  return ⟨node, name, false, type, some value⟩

/-- Reads a global up to its final semicolon; its keyword tells which kind it is. -/
def globalBody (expression : Reader Expr) (n : Nat) (node : Node) : Reader Global := do
  if ← eat "LIST" then listGlobal expression n node
  else if ← eat "VAR" then variableGlobal expression node
  else constantGlobal expression node

/-- Reads a global with its final semicolon. -/
def globalOf (expression : Reader Expr) (n : Nat) : Reader Global := do
  let start ← offset
  let id ← freshId
  let global ← globalBody expression n ⟨id, start⟩
  expect ";"
  return global

/-! ## §2 Functions -/

/-- Reads a parameter. -/
def parameter : Reader Parameter := do
  let id ← freshId
  let start ← offset
  let name ← identifier
  expect ":"
  let type ← identifier
  return ⟨⟨id, start⟩, name, type⟩

/-- Reads a function. -/
def functionOf (statement : Reader Statement) (n : Nat) : Reader Function := do
  let start ← offset
  let id ← freshId
  expect "FUN"
  let name ← identifier
  expect "("
  let parameters ← commaSeparated parameter ")" n
  let returns ← typeName?
  expect "DO"
  let body ← block statement ["END"] n
  expect "END"
  return ⟨⟨id, start⟩, name, parameters, returns, body⟩

/-! ## §3 Programs -/

/-- Reads a whole program; no token may be left over. -/
def programOf (global : Reader Global) (function : Reader Function) (n : Nat) : Reader Program := do
  let globals ← many (·.peekOneOf ["LIST", "VAR", "VAL"]) global n
  let functions ← many (·.peek "FUN") function n
  let s ← get
  if s.current.isSome then
    unexpected (.oneOf ["FUN"])
  else if functions.isEmpty then
    throw (.missingFunction s.offset)
  else
    return ⟨globals, functions⟩

/-! ## §4 Readers bounded by their input -/

/-- A bound that no phrase read from here on can exceed. -/
def withBound {α : Type} (reader : Nat → Reader α) : Reader α := do
  reader ((← get).rest.length + 1)

/-- Reads an expression. -/
def expression : Reader Expr := withBound expressionWithin

/-- Reads an expression of one level and those that bind tighter: 1 is the most general level, 5 is a primary
expression. -/
def expressionAt (level : Nat) : Reader Expr := withBound fun n =>
  match level with
  | 1 => logical (expressionWithin n) n
  | 2 => comparison (expressionWithin n) n
  | 3 => additive (expressionWithin n) n
  | 4 => multiplicative (expressionWithin n) n
  | _ => primary (expressionWithin n) n

/-- Reads a statement. -/
def statement : Reader Statement := withBound statementWithin

/-- Reads a block that ends before one of `terminators`. -/
def blockBefore (terminators : List String) : Reader (List Statement) :=
  withBound fun n => block (statementWithin n) terminators n

/-- Reads a global. -/
def global : Reader Global := withBound fun n => globalOf (expressionWithin n) n

/-- Reads a function. -/
def function : Reader Function := withBound fun n => functionOf (statementWithin n) n

/-- Reads a program. -/
def program : Reader Program :=
  withBound fun n => programOf (globalOf (expressionWithin n) n) (functionOf (statementWithin n) n) n

/-- Runs a reader at the first of `tokens`; tokens after the phrase are ignored. -/
def parse {α : Type} (reader : Reader α) (tokens : List Token) : Except GrammarError α :=
  match reader.run (ReaderState.ofTokens tokens) with
  | .ok phrase _ => .ok phrase
  | .error e _ => .error e

end Reader

/-- The program that a sequence of tokens writes. -/
def parse (tokens : List Token) : Except GrammarError Program :=
  Reader.program.parse tokens

end BlockLang
