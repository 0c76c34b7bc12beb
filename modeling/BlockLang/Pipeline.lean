import BlockLang.Grammar.Program
import BlockLang.Java.Program
import BlockLang.Run.Session
import BlockLang.Token.Scan
import BlockLang.Typing.Program

/-!
# From source text to result

The stages in a row: scanning, reading, checking, and then running or printing as Java.  The first stage that fails
ends the whole.
-/

namespace BlockLang

/-- A failure of one of the stages. -/
inductive Failure where
  | lexical (e : LexicalError)
  | grammar (e : GrammarError)
  | typing (e : TypingError)
  | run (e : RunError)
  /-- The bound on the run was too small. -/
  | outOfFuel
deriving DecidableEq, Repr, Inhabited

namespace Failure

/-- The text of a failure. -/
def message : Failure → String
  | lexical e => e.message
  | grammar e => e.message
  | typing e => e.message
  | run e => e.message
  | outOfFuel => "Error: Out of fuel."

/-- The failure of a run that stops. -/
def ofStop : Stop → Failure
  | .error e => run e
  | .outOfFuel => outOfFuel

end Failure

/-! ## §1 Builtins -/

/-- What is known about a builtin before any program. -/
def Builtin.info : Builtin → FunctionInfo
  | .print => ⟨"print", "System.out.println", [.any], .nil⟩

/-- What is known about the builtins. -/
def builtins : List FunctionInfo :=
  [Builtin.print.info]

/-- Whether a word names a builtin. -/
def isBuiltin (word : String) : Bool :=
  builtins.any fun f => f.name = word

/-! ## §2 Stages -/

/-- Scans a source text and reads a phrase from its first tokens. -/
def readPhrase {α : Type} (reader : Reader α) (source : String) : Except Failure α := do
  let tokens ← (tokenize source).mapError .lexical
  (reader.parse tokens).mapError .grammar

/-- Scans and reads a program. -/
def readProgram (source : String) : Except Failure Program :=
  readPhrase Reader.program source

/-- Checks a program against the builtins. -/
def checkProgram (p : Program) : Except Failure SideTable :=
  (check builtins p).mapError .typing

/-- A program and its side table from a source text. -/
def checkSource (source : String) : Except Failure (Program × SideTable) := do
  let p ← readProgram source
  return (p, ← checkProgram p)

/-- Runs a program in a store. -/
def runProgram (fuel : Nat) (p : Program) (store : Store) : Except Failure Value × Store :=
  match (Eval.program fuel p).run store with
  | .ok v s => (.ok v, s)
  | .error e s => (.error (.ofStop e), s)

/-- Checks and runs a source text; yields the value of its `main` and the store at the end. -/
def execute (fuel : Nat) (source : String) : Except Failure Value × Store :=
  match checkSource source with
  | .error e => (.error e, .initial none)
  | .ok (p, _) => runProgram fuel p (.initial none)

/-- Checks a source text and prints it as Java. -/
def compileToJava (source : String) : Except Failure String := do
  let (p, table) ← checkSource source
  return Java.program table p

end BlockLang
