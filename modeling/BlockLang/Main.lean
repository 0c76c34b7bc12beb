import BlockLang.CommandLine

/-!
# The program

Reads the arguments and the file they name, and prints what the command line answers.
-/

open BlockLang in
/-- Runs the command line.  The fuel is more than any run can use up. -/
def main (args : List String) : IO UInt32 := do
  let fuel := Nat.pow 10 18
  let contents ←
    match CommandLine.request? args with
    | some r => if r.fromFile then (some <$> IO.FS.readFile r.operand) <|> pure none else pure none
    | none => pure none
  let report := CommandLine.respond fuel (fun _ => contents) args
  (← IO.getStdout).putStr report.stdout
  (← IO.getStderr).putStr report.stderr
  return report.code.toUInt32
