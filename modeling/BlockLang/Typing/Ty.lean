import BlockLang.Operator

/-!
# Static types

A closed set of eight types.  `Any` accepts every type, `Comparable` accepts the four types whose values are
ordered, and every other type accepts itself alone.
-/

namespace BlockLang

/-- A static type. -/
inductive Ty where
  | any
  | nil
  | boolean
  | integer
  | decimal
  | character
  | string
  | comparable
deriving DecidableEq, Repr, Inhabited

namespace Ty

/-- Every type. -/
def all : List Ty :=
  [any, nil, boolean, integer, decimal, character, string, comparable]

/-- The name that denotes the type in a program. -/
def name : Ty → String
  | any => "Any"
  | nil => "Nil"
  | boolean => "Boolean"
  | integer => "Integer"
  | decimal => "Decimal"
  | character => "Character"
  | string => "String"
  | comparable => "Comparable"

/-- The type that a name denotes. -/
def ofName? (name : String) : Option Ty :=
  all.find? fun t => t.name = name

/-- The Java type that stands for the type. -/
def javaName : Ty → String
  | any => "Object"
  | nil => "Void"
  | boolean => "boolean"
  | integer => "int"
  | decimal => "double"
  | character => "char"
  | string => "String"
  | comparable => "Comparable"

/-- The types whose values are ordered. -/
def isComparable : Ty → Bool
  | integer | decimal | character | string => true
  | _ => false

/-- The types that calculate. -/
def isNumeric : Ty → Bool
  | integer | decimal => true
  | _ => false

/-- Whether a value of type `source` may be stored where `target` is required. -/
def accepts (target source : Ty) : Bool :=
  match target with
  | any => true
  | comparable => source.isComparable
  | _ => target = source

/-! ## §1 Operators -/

/-- The type of a binary expression; none if the operator does not take operands of these types.  A sum with a
string is a string, whatever the other operand is. -/
def ofBinary? (op : Operator) (left right : Ty) : Option Ty :=
  match op with
  | .and | .or => if left = boolean ∧ right = boolean then some boolean else none
  | .equal | .notEqual | .less | .greater => if left.isComparable ∧ left = right then some boolean else none
  | .add =>
    if left = string ∨ right = string then some string
    else if left.isNumeric ∧ left = right then some left
    else none
  | .sub | .mul | .div => if left.isNumeric ∧ left = right then some left else none
  | .pow => if left.isNumeric ∧ right = integer then some left else none

/-- The type that the name of a type denotes is that type. -/
theorem ofName?_name (t : Ty) : ofName? t.name = some t := by
  cases t <;> rfl

/-- Only the name of a type denotes it. -/
theorem name_of_ofName? {text : String} {t : Ty} (h : ofName? text = some t) : t.name = text := by
  simpa using List.find?_some h

end Ty

end BlockLang
