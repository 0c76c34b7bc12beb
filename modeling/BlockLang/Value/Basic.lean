import BlockLang.Tree

/-!
# Values

The values of a running program.  Lists are shared: a list value is a reference into a heap, and whoever holds it
sees every change of its elements.
-/

namespace BlockLang

/-- The number of a list in the heap. -/
abbrev ListRef := Nat

/-- A value. -/
inductive Value where
  /-- The absence of a value. -/
  | nil
  | boolean (value : Bool)
  | integer (value : Int)
  | decimal (value : Decimal)
  | character (value : Char)
  | string (value : String)
  /-- A shared list. -/
  | list (ref : ListRef)
deriving DecidableEq, Repr, Inhabited

/-- The runtime type of a value. -/
inductive ValueKind where
  | nil
  | boolean
  | integer
  | decimal
  | character
  | string
  | list
deriving DecidableEq, Repr, Inhabited

/-- The name of a runtime type. -/
def ValueKind.name : ValueKind → String
  | nil => "Nil"
  | boolean => "Boolean"
  | integer => "Integer"
  | decimal => "Decimal"
  | character => "Character"
  | string => "String"
  | list => "List"

namespace Value

/-- The runtime type of a value. -/
def kind : Value → ValueKind
  | nil => .nil
  | boolean _ => .boolean
  | integer _ => .integer
  | decimal _ => .decimal
  | character _ => .character
  | string _ => .string
  | list _ => .list

/-- The value of a literal. -/
def ofLiteral : Literal → Value
  | .nil => .nil
  | .boolean b => .boolean b
  | .integer n => .integer n
  | .decimal d => .decimal d
  | .character c => .character c
  | .string s => .string s

end Value

end BlockLang
