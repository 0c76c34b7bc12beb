/-!
# Binary operators

The eleven binary operators, their symbols and the four levels on which they bind.
-/

namespace BlockLang

/-- A binary operator. -/
inductive Operator where
  | and
  | or
  | equal
  | notEqual
  | less
  | greater
  | add
  | sub
  | mul
  | div
  | pow
deriving DecidableEq, Repr, Inhabited

namespace Operator

/-- Every operator. -/
def all : List Operator :=
  [and, or, equal, notEqual, less, greater, add, sub, mul, div, pow]

/-- The symbol that writes the operator. -/
def symbol : Operator → String
  | and => "&&"
  | or => "||"
  | equal => "=="
  | notEqual => "!="
  | less => "<"
  | greater => ">"
  | add => "+"
  | sub => "-"
  | mul => "*"
  | div => "/"
  | pow => "^"

/-- The operator that a symbol writes. -/
def ofSymbol? (symbol : String) : Option Operator :=
  all.find? fun op => op.symbol = symbol

/-- How tightly an operator binds, from 1 for the logical operators to 4 for the multiplicative ones.  Operators
of one level associate to the left. -/
def level : Operator → Nat
  | and | or => 1
  | equal | notEqual | less | greater => 2
  | add | sub => 3
  | mul | div | pow => 4

/-- The operators of one level. -/
def atLevel (n : Nat) : List Operator :=
  all.filter fun op => op.level = n

/-- The operator that the symbol of an operator writes is that operator. -/
theorem ofSymbol?_symbol (op : Operator) : ofSymbol? op.symbol = some op := by
  cases op <;> rfl

/-- Only the symbol of an operator writes it. -/
theorem symbol_of_ofSymbol? {text : String} {op : Operator} (h : ofSymbol? text = some op) :
    op.symbol = text := by
  simpa using List.find?_some h

end Operator

end BlockLang
