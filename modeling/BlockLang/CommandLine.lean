import BlockLang.Pipeline

/-!
# The command line

One positional argument holds the program, or with `-f` the name of a file that holds it.  `-e` prints the program
as Java and `-c` only checks it; otherwise it is run and its value becomes the exit status.
-/

namespace BlockLang

-- Powers of numbers are those of the core library here, also where the algebraic hierarchy is in scope.
attribute [local instance (high)] instPowNat

namespace CommandLine

/-! ## §1 Arguments -/

/-- What is done with a program. -/
inductive Action where
  | run
  | emitJava
  | check
deriving DecidableEq, Repr, Inhabited

/-- What the arguments ask for. -/
structure Request where
  action : Action
  /-- Whether the operand names a file that holds the program. -/
  fromFile : Bool
  /-- The positional argument. -/
  operand : String
deriving DecidableEq, Repr, Inhabited

/-- The arguments seen so far. -/
structure Seen where
  file : Bool
  emitJava : Bool
  check : Bool
  operands : List String
deriving DecidableEq, Repr, Inhabited

/-- Sets the option that a short name stands for; none if there is no such option. -/
def shortOption (seen : Seen) : Char → Option Seen
  | 'f' => some { seen with file := true }
  | 'e' => some { seen with emitJava := true }
  | 'c' => some { seen with check := true }
  | _ => none

/-- Sets the option that a long name stands for; none if there is no such option. -/
def longOption (seen : Seen) (name : String) : Option Seen :=
  if name = "--file" then some { seen with file := true }
  else if name = "--emit-java" then some { seen with emitJava := true }
  else if name = "--check" then some { seen with check := true }
  else none

/-- Takes one argument into account.  Options may come in any order and short ones may be bundled; a single dash
is an operand. -/
def argument (seen : Seen) (text : String) : Option Seen :=
  match text.toList with
  | '-' :: '-' :: _ => longOption seen text
  | '-' :: c :: rest => (c :: rest).foldlM shortOption seen
  | _ => some { seen with operands := seen.operands ++ [text] }

/-- Takes all arguments into account; after `--` there are only operands. -/
def arguments (seen : Seen) : List String → Option Seen
  | [] => some seen
  | "--" :: rest => some { seen with operands := seen.operands ++ rest }
  | text :: rest => do arguments (← argument seen text) rest

/-- What the arguments ask for; none if they cannot be understood. -/
def request? (args : List String) : Option Request := do
  let seen ← arguments ⟨false, false, false, []⟩ args
  match seen.operands, seen.check, seen.emitJava with
  | [operand], false, false => some ⟨.run, seen.file, operand⟩
  | [operand], true, false => some ⟨.check, seen.file, operand⟩
  | [operand], false, true => some ⟨.emitJava, seen.file, operand⟩
  | _, _, _ => none

/-! ## §2 Results -/

/-- What the command prints and its exit status. -/
structure Report where
  code : Nat
  stdout : String
  stderr : String
deriving DecidableEq, Repr, Inhabited

/-- A failure with a message. -/
def Report.failure (stdout message : String) : Report :=
  ⟨1, stdout, message ++ "\n"⟩

/-- The report that the arguments cannot be understood. -/
def Report.usage : Report :=
  ⟨2, "", "Usage: [-f] [-e | -c] CONTENTS\n"⟩

/-- The report that a file cannot be read. -/
def Report.missingFile (name : String) : Report :=
  .failure "" ("Failed to read the input file '" ++ name ++ "'. Perhaps this file does not exist?")

/-- The exit status for a value: an integer of at most 32 bits counts modulo 256, a larger one is a failure, and
any other value is a success. -/
def exitCode : Value → Nat
  | .integer n => if -(2 ^ (31 : Nat)) ≤ n ∧ n < 2 ^ (31 : Nat) then (n % 256).toNat else 1
  | _ => 0

/-- Does what is asked with a program. -/
def perform (fuel : Nat) (action : Action) (source : String) : Report :=
  match action with
  | .check =>
    match checkSource source with
    | .ok _ => ⟨0, "", ""⟩
    | .error e => .failure "" e.message
  | .emitJava =>
    match compileToJava source with
    | .ok java => ⟨0, java, ""⟩
    | .error e => .failure "" e.message
  | .run =>
    match execute fuel source with
    | (.ok v, s) => ⟨exitCode v, s.sink.text, ""⟩
    | (.error e, s) => .failure s.sink.text e.message

/-- Does what the arguments ask for; `read` yields the text of a file, if it can be read. -/
def respond (fuel : Nat) (read : String → Option String) (args : List String) : Report :=
  match request? args with
  | none => .usage
  | some r =>
    if r.fromFile then
      match read r.operand with
      | some source => perform fuel r.action source
      | none => .missingFile r.operand
    else
      perform fuel r.action r.operand

end CommandLine

end BlockLang
