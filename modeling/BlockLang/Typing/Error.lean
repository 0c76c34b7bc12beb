import BlockLang.Typing.Ty

/-!
# Typing errors

Why a program is refused before it runs.
-/

namespace BlockLang

/-- A typing error. -/
inductive TypingError where
  /-- There is no function `main` without parameters. -/
  | missingMain
  /-- `main` returns something other than an integer. -/
  | invalidMainReturn (found : Ty) (offset : Nat)
  /-- A type name denotes no type. -/
  | unknownType (name : String) (offset : Nat)
  /-- A variable is not defined. -/
  | unknownVariable (name : String) (offset : Nat)
  /-- A function is not defined with that number of parameters. -/
  | unknownFunction (name : String) (arity offset : Nat)
  /-- A name is defined twice in one block. -/
  | alreadyDefined (name : String) (offset : Nat)
  /-- A value of one type is stored where another one is required. -/
  | notAssignable (target found : Ty) (offset : Nat)
  /-- The initial value of a global does not have the type that is written. -/
  | variableMismatch (name : String) (target found : Ty) (offset : Nat)
  /-- An operator does not take operands of these types. -/
  | invalidOperands (op : Operator) (left right : Ty) (offset : Nat)
  /-- A variable is indexed that holds no list. -/
  | notAList (name : String) (offset : Nat)
  /-- Something other than a list is stored into a variable that holds one. -/
  | listRequired (offset : Nat)
  /-- Parentheses hold something other than a binary expression. -/
  | invalidGroup (offset : Nat)
  /-- Something other than a variable or an element is assigned. -/
  | invalidReceiver (offset : Nat)
  /-- A declaration has neither a type nor an initial value. -/
  | missingDeclarationType (name : String) (offset : Nat)
  /-- An integer literal has more than 32 bits. -/
  | integerTooLarge (offset : Nat)
  /-- A decimal literal exceeds every finite double. -/
  | decimalTooLarge (offset : Nat)
  /-- A conditional has nothing to do when its condition holds. -/
  | emptyBranch (offset : Nat)
deriving DecidableEq, Repr, Inhabited

namespace TypingError

/-- The offset of the node at fault; a missing `main` has none. -/
def offset? : TypingError → Option Nat
  | missingMain => none
  | invalidMainReturn _ o | unknownType _ o | unknownVariable _ o | unknownFunction _ _ o | alreadyDefined _ o
  | notAssignable _ _ o | variableMismatch _ _ _ o | invalidOperands _ _ _ o | notAList _ o | listRequired o
  | invalidGroup o | invalidReceiver o | missingDeclarationType _ o | integerTooLarge o | decimalTooLarge o
  | emptyBranch o => some o

/-- What went wrong, without the place. -/
def reason : TypingError → String
  | missingMain => "A function 'main' with no parameters must be defined"
  | invalidMainReturn found _ => "Function 'main' must return Integer, not " ++ found.name
  | unknownType name _ => "Unknown type '" ++ name ++ "'"
  | unknownVariable name _ => "Unknown variable '" ++ name ++ "'"
  | unknownFunction name arity _ =>
    "Unknown function '" ++ name ++ "' taking " ++ toString arity ++ " argument(s)"
  | alreadyDefined name _ => "'" ++ name ++ "' is already defined in this scope"
  | notAssignable target found _ => "Cannot assign " ++ found.name ++ " to " ++ target.name
  | variableMismatch name target found _ =>
    "Variable mismatch: '" ++ name ++ "' is " ++ target.name ++ " but was initialized with " ++ found.name
  | invalidOperands op left right _ =>
    "Operator '" ++ op.symbol ++ "' cannot be applied to " ++ left.name ++ " and " ++ right.name
  | notAList name _ => "'" ++ name ++ "' is not a list and cannot be indexed"
  | listRequired _ => "Expected a list variable"
  | invalidGroup _ => "Parentheses must contain a binary expression"
  | invalidReceiver _ => "Only variables and list elements can be assigned"
  | missingDeclarationType name _ => "Declaration of '" ++ name ++ "' needs a type or an initial value"
  | integerTooLarge _ => "Integer literal has too many bits"
  | decimalTooLarge _ => "Decimal literal is too big"
  | emptyBranch _ => "IF statement has an empty then-branch"

/-- The text of the error. -/
def message (e : TypingError) : String :=
  match e.offset? with
  | none => "Error: " ++ e.reason ++ "."
  | some o => "Error at offset " ++ toString o ++ ": " ++ e.reason ++ "."

end TypingError

end BlockLang
