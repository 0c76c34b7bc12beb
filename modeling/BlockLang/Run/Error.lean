import BlockLang.Value.Basic

/-!
# Runtime errors

Why a run fails.
-/

namespace BlockLang

/-- Why values do not fit where they are used. -/
inductive TypeFault where
  /-- A value of another type is needed. -/
  | expected (wanted found : ValueKind)
  /-- The operator calculates nothing. -/
  | notArithmetic (op : Operator)
  /-- The operator compares nothing. -/
  | notComparison (op : Operator)
  /-- The operator is not `&&` or `||`. -/
  | notLogical (op : Operator)
  /-- The operator does not take such operands. -/
  | operands (op : Operator) (left right : ValueKind)
  /-- Values of these types have no common order. -/
  | unordered (left right : ValueKind)
  /-- Values of this type have no powers. -/
  | base (found : ValueKind)
  /-- Something other than a variable or an element is assigned. -/
  | receiver
deriving DecidableEq, Repr, Inhabited

/-- The words for the fault. -/
def TypeFault.describe : TypeFault → String
  | expected wanted found => "expected " ++ wanted.name ++ ", found " ++ found.name
  | notArithmetic op => "'" ++ op.symbol ++ "' is not an arithmetic operator"
  | notComparison op => "'" ++ op.symbol ++ "' is not a comparison operator"
  | notLogical op => "'" ++ op.symbol ++ "' is not a logical operator"
  | operands op left right => "cannot apply '" ++ op.symbol ++ "' to " ++ left.name ++ " and " ++ right.name
  | unordered left right => "cannot compare " ++ left.name ++ " with " ++ right.name
  | base found => "cannot raise " ++ found.name ++ " to a power"
  | receiver => "assignment target must be a variable"

/-- A runtime error. -/
inductive RunError where
  /-- A variable is not defined. -/
  | unknownVariable (name : String) (offset : Nat)
  /-- A function is not defined with that number of parameters, or the scope it was defined in is gone. -/
  | unknownFunction (name : String) (arity offset : Nat)
  /-- A name is defined twice in one scope. -/
  | alreadyDefined (name : String) (offset : Nat)
  /-- A constant is assigned. -/
  | immutableAssignment (name : String) (offset : Nat)
  /-- A number is divided by zero. -/
  | divisionByZero (offset : Nat)
  /-- A list has no element at an index. -/
  | indexOutOfBounds (index : Int) (length offset : Nat)
  /-- A value does not fit where it is used. -/
  | typeFault (fault : TypeFault) (offset : Nat)
  /-- A list would come to contain itself. -/
  | cyclicList (name : String) (offset : Nat)
  /-- An exponent is negative or too large. -/
  | invalidExponent (offset : Nat)
  /-- The output takes no more. -/
  | outputFailed (cause : String)
deriving DecidableEq, Repr, Inhabited

namespace RunError

/-- The offset of the node at fault; a failing output has none. -/
def offset? : RunError → Option Nat
  | outputFailed _ => none
  | unknownVariable _ o | unknownFunction _ _ o | alreadyDefined _ o | immutableAssignment _ o
  | divisionByZero o | indexOutOfBounds _ _ o | typeFault _ o | cyclicList _ o | invalidExponent o => some o

/-- What went wrong, without the place. -/
def reason : RunError → String
  | unknownVariable name _ => "Unknown variable '" ++ name ++ "'"
  | unknownFunction name arity _ =>
    "Unknown function '" ++ name ++ "' taking " ++ toString arity ++ " argument(s)"
  | alreadyDefined name _ => "'" ++ name ++ "' is already defined in this scope"
  | immutableAssignment name _ => "Cannot assign to immutable variable '" ++ name ++ "'"
  | divisionByZero _ => "Division by zero"
  | indexOutOfBounds index length _ =>
    "Index " ++ Digits.text index ++ " is out of bounds for a list of length " ++ toString length
  | typeFault fault _ => "Type error: " ++ fault.describe
  | cyclicList name _ => "Cannot store list '" ++ name ++ "' inside itself"
  | invalidExponent _ => "Exponent must be a non-negative 32-bit integer"
  | outputFailed cause => "Failed to write output: " ++ cause

/-- The text of the error. -/
def message (e : RunError) : String :=
  match e.offset? with
  | none => "Error: " ++ e.reason ++ "."
  | some o => "Error at offset " ++ toString o ++ ": " ++ e.reason ++ "."

end RunError

end BlockLang
