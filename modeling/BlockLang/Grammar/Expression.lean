import BlockLang.Grammar.Reader
import BlockLang.Numeral
import BlockLang.Text.Escape
import BlockLang.Tree

/-!
# Reading expressions

    logical        ::= comparison (("&&" | "||") comparison)*
    comparison     ::= additive (("==" | "!=" | "<" | ">") additive)*
    additive       ::= multiplicative (("+" | "-") multiplicative)*
    multiplicative ::= primary (("*" | "/" | "^") primary)*
    primary        ::= "NIL" | "TRUE" | "FALSE" | integer | decimal | character | string
                     | "(" logical ")"
                     | identifier ("(" (logical ("," logical)*)? ")" | "[" logical "]")?

The readers take a bound on their depth and on the length of their sequences.  Since each of them consumes a
token before it reads a phrase of its own kind, the number of tokens bounds both.
-/

namespace BlockLang

namespace Reader

/-! ## §1 Literals -/

/-- The value of a literal token; none if its text denotes none.  The token is a number, a character or a
string. -/
def literalOf? (t : Token) : Option Literal :=
  match t.kind with
  | .integer => (Numeral.readInt? t.text.toList).map .integer
  | .decimal => (Numeral.readDecimal? t.text.toList).map .decimal
  | .character =>
    match (Escape.decodeQuoted t.text).toList with
    | [c] => some (.character c)
    | _ => none
  | .string => some (.string (Escape.decodeQuoted t.text))
  | .identifier | .operator => none

/-- The constant that a reserved word denotes. -/
def constantOf? (word : String) : Option Literal :=
  if word = "NIL" then some .nil
  else if word = "TRUE" then some (.boolean true)
  else if word = "FALSE" then some (.boolean false)
  else none

/-- Consumes the token of a literal whose value is known. -/
def literal (offset : Nat) (value : Literal) : Reader Expr := do
  advance
  return .literal ⟨← freshId, offset⟩ value

/-! ## §2 Primary expressions -/

/-- Reads what begins with a name: a call, an indexed access or a plain access. -/
def named (expression : Reader Expr) (n : Nat) : Reader Expr := do
  let start ← offset
  let name ← identifier
  if ← eat "(" then
    let arguments ← commaSeparated expression ")" n
    return .call ⟨← freshId, start⟩ name arguments
  else if ← eat "[" then
    let index ← expression
    expect "]"
    return .element ⟨← freshId, start⟩ name index
  else
    return .variable ⟨← freshId, start⟩ name

/-- Reads an expression in parentheses. -/
def parenthesized (expression : Reader Expr) (start : Nat) : Reader Expr := do
  advance
  let inner ← expression
  expect ")"
  return .group ⟨← freshId, start⟩ inner

/-- Reads a primary expression; `expression` reads the expressions inside it. -/
def primary (expression : Reader Expr) (n : Nat) : Reader Expr := do
  match (← get).current with
  | none => unexpected .expression
  | some t =>
    match t.kind with
    | .identifier =>
      match constantOf? t.text with
      | some value => literal t.offset value
      | none => if isKeyword t.text then unexpected .expression else named expression n
    | .operator => if t.text = "(" then parenthesized expression t.offset else unexpected .expression
    | .integer | .decimal | .character | .string =>
      match literalOf? t with
      | some value => literal t.offset value
      | none => throw (.invalidLiteral t.text t.offset)

/-! ## §3 Operators -/

/-- Consumes the next token if it is an operator of the given level. -/
def operator? (level : Nat) : Reader (Option Operator) := do
  match (← get).current with
  | none => return none
  | some t =>
    if t.kind = .operator then
      match Operator.ofSymbol? t.text with
      | some op =>
        if op.level = level then
          advance
          return some op
        else
          return none
      | none => return none
    else
      return none

/-- Joins further operands of one level to `left`, from left to right; at most `n` of them. -/
def chain (level : Nat) (operand : Reader Expr) : Nat → Expr → Reader Expr
  | 0, left => return left
  | n + 1, left => do
    match ← operator? level with
    | none => return left
    | some op =>
      let right ← operand
      let id ← freshId
      chain level operand n (.binary ⟨id, left.offset⟩ op left right)

/-- Reads the operands of one level and the operators between them. -/
def operands (level : Nat) (operand : Reader Expr) (n : Nat) : Reader Expr := do
  chain level operand n (← operand)

/-! ## §4 The four levels -/

/-- Reads a multiplicative expression. -/
def multiplicative (expression : Reader Expr) (n : Nat) : Reader Expr :=
  operands 4 (primary expression n) n

/-- Reads an additive expression. -/
def additive (expression : Reader Expr) (n : Nat) : Reader Expr :=
  operands 3 (multiplicative expression n) n

/-- Reads a comparison. -/
def comparison (expression : Reader Expr) (n : Nat) : Reader Expr :=
  operands 2 (additive expression n) n

/-- Reads a logical expression, which is the most general one. -/
def logical (expression : Reader Expr) (n : Nat) : Reader Expr :=
  operands 1 (comparison expression n) n

/-- Reads an expression that is nested and stretched less than the bound. -/
def expressionWithin : Nat → Reader Expr
  | 0 => unexpected .expression
  | n + 1 => logical (expressionWithin n) n

end Reader

end BlockLang
