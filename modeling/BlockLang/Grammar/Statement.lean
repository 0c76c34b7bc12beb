import BlockLang.Grammar.Expression

/-!
# Reading statements

    block     ::= statement+
    statement ::= "LET" identifier (":" identifier)? ("=" expression)? ";"
                | "SWITCH" expression ("CASE" expression ":" block)* "DEFAULT" block "END"
                | "IF" expression "DO" block ("ELSE" block)? "END"
                | "WHILE" expression "DO" block "END"
                | "RETURN" expression ";"
                | expression ("=" expression)? ";"

A block ends before the first token that closes it; which tokens do depends on the statement it belongs to.
-/

namespace BlockLang

namespace Reader

/-! ## §1 Blocks -/

/-- Reads statements up to one of `terminators`, which is left in place; at most `n` statements. -/
def statements (statement : Reader Statement) (terminators : List String) : Nat → Reader (List Statement)
  | 0 => unexpected (.oneOf terminators)
  | n + 1 => do
    let s ← get
    if s.peekOneOf terminators then
      return []
    else if s.current.isNone then
      unexpected (.oneOf terminators)
    else
      let first ← statement
      return first :: (← statements statement terminators n)

/-- Reads a block, which must hold at least one statement. -/
def block (statement : Reader Statement) (terminators : List String) (n : Nat) : Reader (List Statement) := do
  let body ← statements statement terminators n
  if body.isEmpty then throw (.emptyBlock (← offset)) else return body

/-! ## §2 The kinds of statements -/

/-- Reads an initial value, if `=` is next. -/
def initializer? (expression : Reader Expr) : Reader (Option Expr) := do
  if ← eat "=" then
    return some (← expression)
  else
    return none

/-- Reads a declaration after its `LET`. -/
def declaration (expression : Reader Expr) (start : Nat) : Reader Statement := do
  let id ← freshId
  let name ← identifier
  let type ← typeName?
  let value ← initializer? expression
  expect ";"
  return .declaration ⟨id, start⟩ name type value

/-- Reads one arm of a switch from its `CASE` on. -/
def valueCase (expression : Reader Expr) (statement : Reader Statement) (n : Nat) : Reader Case := do
  let start ← offset
  advance
  let value ← expression
  expect ":"
  let body ← block statement ["CASE", "DEFAULT", "END"] n
  return .mk start (some value) body

/-- Reads a switch after its `SWITCH`; the default arm comes last. -/
def switch (expression : Reader Expr) (statement : Reader Statement) (n start : Nat) : Reader Statement := do
  let condition ← expression
  let cases ← many (·.peek "CASE") (valueCase expression statement n) n
  let defaultStart ← offset
  expect "DEFAULT"
  let body ← block statement ["END"] n
  expect "END"
  return .switch start condition (cases ++ [.mk defaultStart none body])

/-- Reads a conditional after its `IF`. -/
def conditional (expression : Reader Expr) (statement : Reader Statement) (n start : Nat) :
    Reader Statement := do
  let condition ← expression
  expect "DO"
  let onTrue ← block statement ["ELSE", "END"] n
  let onFalse ← if ← eat "ELSE" then block statement ["END"] n else pure []
  expect "END"
  return .conditional start condition onTrue onFalse

/-- Reads a loop after its `WHILE`. -/
def loop (expression : Reader Expr) (statement : Reader Statement) (n start : Nat) : Reader Statement := do
  let condition ← expression
  expect "DO"
  let body ← block statement ["END"] n
  expect "END"
  return .loop start condition body

/-- Reads a return after its `RETURN`. -/
def returned (expression : Reader Expr) (start : Nat) : Reader Statement := do
  let value ← expression
  expect ";"
  return .returning start value

/-- Reads a statement that begins with an expression. -/
def effect (expression : Reader Expr) (start : Nat) : Reader Statement := do
  let value ← expression
  if ← eat "=" then
    let stored ← expression
    expect ";"
    return .assignment start value stored
  else
    expect ";"
    return .expression start value

/-! ## §3 Any statement -/

/-- Reads a statement; `statement` reads the statements inside it. -/
def statementOf (expression : Reader Expr) (statement : Reader Statement) (n : Nat) : Reader Statement := do
  let start ← offset
  if ← eat "LET" then declaration expression start
  else if ← eat "SWITCH" then switch expression statement n start
  else if ← eat "IF" then conditional expression statement n start
  else if ← eat "WHILE" then loop expression statement n start
  else if ← eat "RETURN" then returned expression start
  else effect expression start

/-- Reads a statement that is nested and stretched less than the bound. -/
def statementWithin : Nat → Reader Statement
  | 0 => unexpected .expression
  | n + 1 => statementOf (expressionWithin n) (statementWithin n) n

end Reader

end BlockLang
