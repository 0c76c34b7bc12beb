import BlockLang.Text.Escape
import BlockLang.Tree
import BlockLang.Typing.RuntimeName
import BlockLang.Typing.SideTable

/-!
# Java expressions

The Java text of an expression.  Names and types come from the side table; a node without an entry falls back on
the mangled name of the program.
-/

namespace BlockLang

namespace Java

/-- The text of a literal. -/
def literal : Literal → String
  | .nil => "null"
  | .boolean b => if b then "true" else "false"
  | .integer n => Digits.text n
  | .decimal d => d.plain
  | .character c => "'" ++ String.ofList (Escape.encodeChar c) ++ "'"
  | .string s => "\"" ++ String.ofList (Escape.encode s.toList) ++ "\""

/-- The name of the variable that a node stands for. -/
def variableName (t : SideTable) (id : Nat) (name : String) : String :=
  ((t.findVariable? id).map VariableInfo.runtimeName).getD (mangle name)

/-- The name of the function that a node stands for. -/
def functionName (t : SideTable) (id : Nat) (name : String) : String :=
  ((t.findFunction? id).map FunctionInfo.runtimeName).getD (mangle name)

/-- Texts separated by commas. -/
def commaSeparated (texts : List String) : String :=
  ", ".intercalate texts

/-- A power; Java calculates it with doubles, so an integer one is cast back. -/
def power (t : SideTable) (id : Nat) (left right : String) : String :=
  let result := "Math.pow(" ++ left ++ ", " ++ right ++ ")"
  if t.type? id = some .integer then "(int) " ++ result else result

mutual

/-- The text of an expression. -/
def expression (t : SideTable) : Expr → String
  | .literal _ value => literal value
  | .group _ inner => "(" ++ expression t inner ++ ")"
  | .binary node op left right =>
    if op = .pow then power t node.id (expression t left) (expression t right)
    else expression t left ++ " " ++ op.symbol ++ " " ++ expression t right
  | .variable node name => variableName t node.id name
  | .element node name index => variableName t node.id name ++ "[" ++ expression t index ++ "]"
  | .call node name arguments =>
    functionName t node.id name ++ "(" ++ commaSeparated (expressions t arguments) ++ ")"
  | .list _ elements => "\x7b" ++ commaSeparated (expressions t elements) ++ "\x7d"

/-- The texts of expressions. -/
def expressions (t : SideTable) : List Expr → List String
  | [] => []
  | e :: rest => expression t e :: expressions t rest

end

end Java

end BlockLang
