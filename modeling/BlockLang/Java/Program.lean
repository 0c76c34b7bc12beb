import BlockLang.Java.Expression

/-!
# Java programs

A program becomes a class `Main`: globals become fields, functions become methods, and the entry point of the class
exits with the value of the program's own `main`.  Text is laid out in lines, each with its indentation.
-/

namespace BlockLang

namespace Java

/-! ## §1 Lines -/

/-- A line of text. -/
structure Line where
  /-- How many levels the line is indented. -/
  indent : Nat
  text : String
deriving DecidableEq, Repr, Inhabited

/-- An empty line. -/
def Line.blank : Line := ⟨0, ""⟩

/-- The characters of a line, four blanks for each level. -/
def Line.render (l : Line) : String :=
  String.ofList (List.replicate (4 * l.indent) ' ') ++ l.text

/-- The text of lines, each with a line feed at its end. -/
def render (lines : List Line) : String :=
  String.join (lines.map fun l => l.render ++ "\n")

/-! ## §2 Declarations -/

/-- The Java type and the name of a variable.  A variable that is not in the side table is an object. -/
def typedName (t : SideTable) (id : Nat) (name : String) : String :=
  match t.findVariable? id with
  | some v => v.type.javaName ++ (if v.list then "[]" else "") ++ " " ++ v.runtimeName
  | none => Ty.any.javaName ++ " " ++ mangle name

/-- The text of an optional initial value. -/
def initializer (t : SideTable) : Option Expr → String
  | none => ""
  | some value => " = " ++ expression t value

/-- The text of a global.  A list shows as an array because its initial value is one, a constant is final. -/
def global (t : SideTable) (g : Global) : String :=
  let (name, type) :=
    match t.findVariable? g.node.id with
    | some v => (v.runtimeName, v.type)
    | none => (mangle g.name, Ty.any)
  if g.isList then type.javaName ++ "[] " ++ name ++ initializer t g.value ++ ";"
  else (if g.mutable then "" else "final ") ++ type.javaName ++ " " ++ name ++ initializer t g.value ++ ";"

/-- The text of a parameter. -/
def parameter (t : SideTable) (p : Parameter) : String :=
  match t.findVariable? p.node.id with
  | some v => v.type.javaName ++ " " ++ v.runtimeName
  | none => Ty.any.javaName ++ " " ++ mangle p.name

/-! ## §3 Statements -/

mutual

/-- The lines of a statement at a level of indentation. -/
def statement (t : SideTable) (indent : Nat) : Statement → List Line
  | .expression _ e => [⟨indent, expression t e ++ ";"⟩]
  | .declaration node name _ value => [⟨indent, typedName t node.id name ++ initializer t value ++ ";"⟩]
  | .assignment _ receiver value => [⟨indent, expression t receiver ++ " = " ++ expression t value ++ ";"⟩]
  | .conditional _ condition onTrue onFalse =>
    ⟨indent, "if (" ++ expression t condition ++ ") \x7b"⟩ :: statements t (indent + 1) onTrue
      ++ (if onFalse.isEmpty then [] else ⟨indent, "\x7d else \x7b"⟩ :: statements t (indent + 1) onFalse)
      ++ [⟨indent, "\x7d"⟩]
  | .switch _ condition cases =>
    ⟨indent, "switch (" ++ expression t condition ++ ") \x7b"⟩ :: arms t (indent + 1) cases
      ++ [⟨indent, "\x7d"⟩]
  | .loop _ condition body =>
    ⟨indent, "while (" ++ expression t condition ++ ") \x7b"⟩ :: statements t (indent + 1) body
      ++ [⟨indent, "\x7d"⟩]
  | .returning _ value => [⟨indent, "return " ++ expression t value ++ ";"⟩]

/-- The lines of statements. -/
def statements (t : SideTable) (indent : Nat) : List Statement → List Line
  | [] => []
  | first :: rest => statement t indent first ++ statements t indent rest

/-- The lines of an arm of a switch.  All but the default arm end with a break. -/
def arm (t : SideTable) (indent : Nat) : Case → List Line
  | .mk _ (some value) body =>
    ⟨indent, "case " ++ expression t value ++ ":"⟩ :: statements t (indent + 1) body ++ [⟨indent + 1, "break;"⟩]
  | .mk _ none body => ⟨indent, "default:"⟩ :: statements t (indent + 1) body

/-- The lines of the arms of a switch. -/
def arms (t : SideTable) (indent : Nat) : List Case → List Line
  | [] => []
  | first :: rest => arm t indent first ++ arms t indent rest

end

/-! ## §4 Programs -/

/-- The lines of a function. -/
def function (t : SideTable) (f : Function) : List Line :=
  let (name, returns) :=
    match t.findFunction? f.node.id with
    | some info => (info.runtimeName, info.returns)
    | none => (mangle f.name, Ty.nil)
  let parameters := commaSeparated (f.parameters.map (parameter t))
  ⟨1, returns.javaName ++ " " ++ name ++ "(" ++ parameters ++ ") \x7b"⟩ :: statements t 2 f.body ++ [⟨1, "\x7d"⟩]

/-- The lines of the globals, with an empty line after them if there are any. -/
def globals (t : SideTable) : List Global → List Line
  | [] => []
  | g :: rest => (g :: rest).map (fun g => ⟨1, global t g⟩) ++ [.blank]

/-- The lines of the entry point of the class. -/
def entryPoint : List Line :=
  [⟨1, "public static void main(String[] args) \x7b"⟩, ⟨2, "System.exit(new Main().main());"⟩, ⟨1, "\x7d"⟩]

/-- The lines of a program. -/
def programLines (t : SideTable) (p : Program) : List Line :=
  ⟨0, "public class Main \x7b"⟩ :: .blank :: globals t p.globals ++ entryPoint
    ++ p.functions.flatMap (fun f => .blank :: function t f) ++ [.blank, ⟨0, "\x7d"⟩]

/-- The Java text of a program. -/
def program (t : SideTable) (p : Program) : String :=
  render (programLines t p)

end Java

end BlockLang
