import BlockLang.Proofs.Java.Brackets

/-!
# Printing with a running indentation

The lines of a program get their indentation from the statements that they stand in.  A printer can also keep the
current indentation while it appends to what it has printed, raise it where a block begins and lower it where the block
ends.  Both print the same, and the printer has its indentation back after everything it prints.

## Main definition

- `Printer`: what has been printed, and the current indentation.

## Main statements

- `Printer.statement_eq`, `Printer.case_eq`, `Printer.block_eq`, `Printer.function_eq`: what is appended for each part
  of a program; nothing else changes.
- `Printer.program_eq`: what is printed of a program.
-/

namespace BlockLang.Java

/-! ## §1 Printers -/

/-- What has been printed, and the current indentation. -/
structure Printer where
  out : String
  indent : Nat
deriving DecidableEq, Repr

namespace Printer

/-- Appends a text. -/
def print (text : String) (s : Printer) : Printer :=
  { s with out := s.out ++ text }

/-- Begins a line at a level of indentation. -/
def newline (indent : Nat) (s : Printer) : Printer :=
  s.print ("\n" ++ String.ofList (List.replicate (4 * indent) ' '))

/-- Prints a text on a line of its own at the current indentation. -/
def line (text : String) (s : Printer) : Printer :=
  (s.newline s.indent).print text

/-- One level deeper. -/
def raise (s : Printer) : Printer :=
  { s with indent := s.indent + 1 }

/-- One level back. -/
def lower (s : Printer) : Printer :=
  { s with indent := s.indent - 1 }

variable (t : SideTable)

mutual

/-- Prints a statement on the line that has been begun. -/
def statement : Statement → Printer → Printer
  | .expression _ e, s => s.print (expression t e ++ ";")
  | .declaration node name _ value, s => s.print (typedName t node.id name ++ initializer t value ++ ";")
  | .assignment _ receiver value, s => s.print (expression t receiver ++ " = " ++ expression t value ++ ";")
  | .conditional _ condition onTrue onFalse, s =>
    let branch := block onTrue (s.print ("if (" ++ expression t condition ++ ") \x7b"))
    let branches := if onFalse.isEmpty then branch else block onFalse (branch.line "\x7d else \x7b")
    branches.line "\x7d"
  | .switch _ condition cs, s =>
    (cases cs (s.print ("switch (" ++ expression t condition ++ ") \x7b")).raise).lower.line "\x7d"
  | .loop _ condition body, s => (block body (s.print ("while (" ++ expression t condition ++ ") \x7b"))).line "\x7d"
  | .returning _ value, s => s.print ("return " ++ expression t value ++ ";")

/-- Prints statements one level deeper. -/
def block (body : List Statement) (s : Printer) : Printer :=
  (statements body s.raise).lower

/-- Prints statements, each on a line of its own. -/
def statements : List Statement → Printer → Printer
  | [], s => s
  | first :: rest, s => statements rest (statement first (s.newline s.indent))

/-- Prints an arm of a switch on the line that has been begun. -/
def case : Case → Printer → Printer
  | .mk _ (some value) body, s =>
    ((block body (s.print ("case " ++ expression t value ++ ":"))).raise.line "break;").lower
  | .mk _ none body, s => block body (s.print "default:")

/-- Prints the arms of a switch, each on a line of its own. -/
def cases : List Case → Printer → Printer
  | [], s => s
  | first :: rest, s => cases rest (case first (s.newline s.indent))

end

/-- Prints a function on the line that has been begun. -/
def function (f : Function) (s : Printer) : Printer :=
  (block t f.body (s.print (methodHead t f ++ "\x7b"))).line "\x7d"

/-- Prints globals, each on a line of its own. -/
def globals : List Global → Printer → Printer
  | [], s => s
  | g :: rest, s => globals rest ((s.newline s.indent).print (global t g))

/-- Prints functions, each on a line of its own with an empty line before it. -/
def functions : List Function → Printer → Printer
  | [], s => s
  | f :: rest, s => functions rest (function t f ((s.newline 0).newline s.indent))

/-- Prints a program. -/
def program (p : Program) (s : Printer) : Printer :=
  let opened := ((s.print "public class Main \x7b").newline 0).raise
  let fields := if p.globals.isEmpty then opened else (globals t p.globals opened).newline 0
  let entry := ((fields.line "public static void main(String[] args) \x7b").raise.line
    "System.exit(new Main().main());").lower.line "\x7d"
  (((functions t p.functions entry).lower.newline 0).line "\x7d").print "\n"

/-! ## §2 What is printed -/

/-- The text of lines, each with a line feed before it. -/
def broken (lines : List Line) : String :=
  String.join (lines.map fun l => "\n" ++ l.render)

/-- The text of lines whose first one has been begun. -/
def begun : List Line → String
  | [] => ""
  | first :: rest => first.text ++ broken rest

@[simp]
theorem broken_nil : broken [] = "" := rfl

@[simp]
theorem broken_cons (l : Line) (lines : List Line) : broken (l :: lines) = "\n" ++ l.render ++ broken lines := by
  simp [broken, String.join_cons]

@[simp]
theorem broken_append (lines more : List Line) : broken (lines ++ more) = broken lines ++ broken more := by
  induction lines with
  | nil => simp
  | cons l rest ih => simp [ih, String.append_assoc]

/-- A line feed before each line and one at the end make a line feed behind each line. -/
theorem render_eq_broken (first : Line) (rest : List Line) :
    render (first :: rest) = first.render ++ broken rest ++ "\n" := by
  induction rest generalizing first with
  | nil => simp
  | cons next rest ih =>
    rw [render_cons, ih]
    simp [String.append_assoc]

variable (s : Printer)

@[simp]
theorem indent_print (text : String) : (s.print text).indent = s.indent := rfl

@[simp]
theorem print_print (text more : String) : (s.print text).print more = s.print (text ++ more) := by
  simp [print, String.append_assoc]

@[simp]
theorem print_empty : s.print "" = s := by
  simp [print]

@[simp]
theorem line_eq (text : String) : s.line text = s.print (broken [⟨s.indent, text⟩]) := by
  simp [line, newline, Line.render, String.append_assoc]

/-- An empty line. -/
@[simp]
theorem newline_zero : s.newline 0 = s.print (broken [.blank]) := by
  simp [newline, Line.blank, Line.render]

@[simp]
theorem indent_raise : s.raise.indent = s.indent + 1 := rfl

/-- What is printed between raising and lowering the indentation leaves the indentation as it has been. -/
@[simp]
theorem lower_print_raise (text : String) : (s.raise.print text).lower = s.print text := by
  simp [raise, lower, print]

/-- Lines that are begun at the current indentation. -/
theorem newline_print_begun {indent : Nat} {text : String} {lines : List Line} :
    (s.newline indent).print (begun (⟨indent, text⟩ :: lines)) = s.print (broken (⟨indent, text⟩ :: lines)) := by
  simp [newline, begun, Line.render, String.append_assoc]

/-- The first line of a statement is indented like the statement. -/
theorem exists_statement_eq (indent : Nat) (st : Statement) :
    ∃ text lines, Java.statement t indent st = ⟨indent, text⟩ :: lines := by
  cases st <;> exact ⟨_, _, rfl⟩

theorem exists_arm_eq (indent : Nat) (c : Case) : ∃ text lines, arm t indent c = ⟨indent, text⟩ :: lines := by
  obtain ⟨offset, value, body⟩ := c
  cases value <;> exact ⟨_, _, rfl⟩

mutual

/-- A statement appends its lines at the current indentation, and changes nothing else. -/
theorem statement_eq : ∀ (st : Statement) (s : Printer),
    statement t st s = s.print (begun (Java.statement t s.indent st))
  | .expression _ _, s | .declaration _ _ _ _, s | .assignment _ _ _, s | .returning _ _, s => by
    simp [statement, Java.statement, begun]
  | .conditional _ condition onTrue onFalse, s => by
    cases hempty : onFalse.isEmpty <;>
      simp [statement, Java.statement, begun, block_eq onTrue, block_eq onFalse, hempty, String.append_assoc]
  | .switch _ condition cs, s => by
    simp [statement, Java.statement, begun, cases_eq cs, String.append_assoc]
  | .loop _ condition body, s => by
    simp [statement, Java.statement, begun, block_eq body, String.append_assoc]

/-- So does a block, one level deeper. -/
theorem block_eq : ∀ (body : List Statement) (s : Printer),
    block t body s = s.print (broken (Java.statements t (s.indent + 1) body))
  | body, s => by
    simp [block, statements_eq body]

theorem statements_eq : ∀ (body : List Statement) (s : Printer),
    statements t body s = s.print (broken (Java.statements t s.indent body))
  | [], s => by simp [statements, Java.statements]
  | first :: rest, s => by
    obtain ⟨text, lines, hlines⟩ := exists_statement_eq t s.indent first
    have hfirst : statement t first (s.newline s.indent) = s.print (broken (Java.statement t s.indent first)) := by
      rw [statement_eq first, hlines, ← newline_print_begun, ← hlines]
      rfl
    rw [statements, hfirst, statements_eq rest]
    simp [Java.statements]

/-- So does an arm of a switch. -/
theorem case_eq : ∀ (c : Case) (s : Printer), case t c s = s.print (begun (arm t s.indent c))
  | .mk _ (some value) body, s => by
    have hbreak : ∀ s : Printer, (s.raise.line "break;").lower = s.print (broken [⟨s.indent + 1, "break;"⟩]) := by
      simp
    rw [case, hbreak]
    simp [arm, begun, block_eq body, String.append_assoc]
  | .mk _ none body, s => by
    simp [case, arm, begun, block_eq body]

theorem cases_eq : ∀ (cs : List Case) (s : Printer), cases t cs s = s.print (broken (arms t s.indent cs))
  | [], s => by simp [cases, arms]
  | first :: rest, s => by
    obtain ⟨text, lines, hlines⟩ := exists_arm_eq t s.indent first
    have hfirst : case t first (s.newline s.indent) = s.print (broken (arm t s.indent first)) := by
      rw [case_eq first, hlines, ← newline_print_begun, ← hlines]
      rfl
    rw [cases, hfirst, cases_eq rest]
    simp [arms]

end

/-- So does a function, whose lines are indented once. -/
theorem function_eq (f : Function) (h : s.indent = 1) : function t f s = s.print (begun (Java.function t f)) := by
  simp [function, Java.function_eq, begun, block_eq, h, String.append_assoc]

theorem globals_eq (gs : List Global) : globals t gs s =
    s.print (broken (gs.map fun g => ⟨s.indent, global t g⟩)) := by
  induction gs generalizing s with
  | nil => simp [globals]
  | cons g rest ih => simp [globals, ih, newline, Line.render, String.append_assoc]

theorem functions_eq (fs : List Function) (h : s.indent = 1) :
    functions t fs s = s.print (broken (fs.flatMap fun f => .blank :: Java.function t f)) := by
  induction fs generalizing s with
  | nil => simp [functions]
  | cons f rest ih =>
    have hfirst : function t f ((s.newline 0).newline s.indent) =
        s.print (broken (.blank :: Java.function t f)) := by
      rw [function_eq t ((s.newline 0).newline s.indent) f h, h, Java.function_eq, List.cons_append,
        newline_print_begun, newline_zero, print_print, ← broken_append, List.singleton_append]
    rw [functions, hfirst, ih (s.print _) h, print_print, ← broken_append, List.flatMap_cons]

/-- The globals are printed with an empty line behind them if there are any. -/
theorem fields_eq (gs : List Global) (h : s.indent = 1) :
    (if gs.isEmpty then s else (globals t gs s).newline 0) = s.print (broken (Java.globals t gs)) := by
  cases gs with
  | nil => simp [Java.globals]
  | cons g rest =>
    rw [List.isEmpty_cons, if_neg (by decide), globals_eq, newline_zero, print_print, ← broken_append, h, Java.globals]

/-- The entry point of the class. -/
theorem entry_eq (h : s.indent = 1) :
    ((s.line "public static void main(String[] args) \x7b").raise.line "System.exit(new Main().main());").lower.line
      "\x7d" = s.print (broken entryPoint) := by
  simp only [line_eq, lower_print_raise, indent_raise, indent_print, print_print, ← broken_append, h]
  rfl

/-- Printing a program prints its lines, and the indentation is back where it began. -/
theorem program_eq (p : Program) : program t p ⟨"", 0⟩ = ⟨Java.program t p, 0⟩ := by
  have hopened : ((Printer.print "public class Main \x7b" ⟨"", 0⟩).newline 0).raise =
      ⟨"public class Main \x7b" ++ broken [.blank], 1⟩ := by
    simp [print, raise]
  have hlines : Java.program t p = "public class Main \x7b" ++ (broken [.blank] ++ broken (Java.globals t p.globals) ++
      broken entryPoint ++ broken (p.functions.flatMap fun f => .blank :: Java.function t f) ++
      broken [.blank, ⟨0, "\x7d"⟩]) ++ "\n" := by
    simp only [Java.program, programLines, List.cons_append, render_eq_broken, ← broken_append]
    rfl
  rw [program, hopened, fields_eq t _ _ rfl, entry_eq _ rfl, functions_eq t _ _ rfl, hlines]
  simp [print, lower, Line.render, String.append_assoc]

end Printer

end BlockLang.Java
