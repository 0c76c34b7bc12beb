/-!
# Grammar errors

Why a sequence of tokens is no program.
-/

namespace BlockLang

/-- What the grammar allows at a place. -/
inductive Expectation where
  /-- A name that is not reserved. -/
  | identifier
  /-- Any expression. -/
  | expression
  /-- One of these tokens. -/
  | oneOf (texts : List String)
deriving DecidableEq, Repr, Inhabited

/-- The words for what is allowed: tokens are quoted and joined by `or`. -/
def Expectation.describe : Expectation → String
  | identifier => "identifier"
  | expression => "expression"
  | oneOf texts => " or ".intercalate (texts.map fun t => "'" ++ t ++ "'")

/-- A grammar error. -/
inductive GrammarError where
  /-- A token that does not fit. -/
  | unexpectedToken (expected : Expectation) (found : String) (offset : Nat)
  /-- The tokens end too early. -/
  | unexpectedEnd (expected : Expectation) (offset : Nat)
  /-- A block without statements. -/
  | emptyBlock (offset : Nat)
  /-- A program without functions. -/
  | missingFunction (offset : Nat)
  /-- The text of a literal denotes no value. -/
  | invalidLiteral (text : String) (offset : Nat)
deriving DecidableEq, Repr, Inhabited

namespace GrammarError

/-- The offset of the token at fault, or of the end of the tokens. -/
def offset : GrammarError → Nat
  | unexpectedToken _ _ o | unexpectedEnd _ o | emptyBlock o | missingFunction o | invalidLiteral _ o => o

/-- What went wrong, without the place. -/
def reason : GrammarError → String
  | unexpectedToken expected found _ => "Expected " ++ expected.describe ++ ", found '" ++ found ++ "'"
  | unexpectedEnd expected _ => "Expected " ++ expected.describe ++ ", found end of input"
  | emptyBlock _ => "Block must contain at least one statement"
  | missingFunction _ => "Program must define at least one function"
  | invalidLiteral text _ => "Invalid literal '" ++ text ++ "'"

/-- The text of the error. -/
def message (e : GrammarError) : String :=
  "Error at offset " ++ toString e.offset ++ ": " ++ e.reason ++ "."

end GrammarError

end BlockLang
