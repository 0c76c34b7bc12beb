import BlockLang.Decimal.Basic
import BlockLang.Operator

/-!
# Program trees

A program is a list of globals followed by a list of functions.  Every node that can carry a type or a resolved
name has an id; every node has the offset, in characters, of its first token.  Trees are plain data: what is
known about a node beyond its text is kept beside the tree, under its id.
-/

namespace BlockLang

/-- The id and the source offset of a node. -/
structure Node where
  /-- The number that identifies the node within its tree. -/
  id : Nat
  /-- The offset of the node's first token, in characters. -/
  offset : Nat
deriving DecidableEq, Repr, Inhabited

/-! ## §1 Expressions -/

/-- A constant written in the source, escape sequences already decoded. -/
inductive Literal where
  | nil
  | boolean (value : Bool)
  | integer (value : Int)
  | decimal (value : Decimal)
  | character (value : Char)
  | string (value : String)
deriving DecidableEq, Repr, Inhabited

/-- An expression. -/
inductive Expr where
  /-- A constant. -/
  | literal (node : Node) (value : Literal)
  /-- An expression in parentheses. -/
  | group (node : Node) (inner : Expr)
  /-- Two operands joined by an operator. -/
  | binary (node : Node) (op : Operator) (left right : Expr)
  /-- The value of a variable. -/
  | variable (node : Node) (name : String)
  /-- One element of the list that a variable holds. -/
  | element (node : Node) (name : String) (index : Expr)
  /-- A function call. -/
  | call (node : Node) (name : String) (arguments : List Expr)
  /-- A list written element by element. -/
  | list (node : Node) (elements : List Expr)
deriving Repr, Inhabited

namespace Expr

/-- The node of an expression. -/
def node : Expr → Node
  | .literal n _ | .group n _ | .binary n _ _ _ | .variable n _ | .element n _ _ | .call n _ _ | .list n _ => n

/-- The id of an expression. -/
def id (e : Expr) : Nat := e.node.id

/-- The source offset of an expression. -/
def offset (e : Expr) : Nat := e.node.offset

/-- Whether the expression joins two operands. -/
def isBinary : Expr → Bool
  | binary .. => true
  | _ => false

/-- Whether the expression is a list written element by element. -/
def isList : Expr → Bool
  | list .. => true
  | _ => false

end Expr

/-! ## §2 Statements -/

mutual

/-- A statement inside a function body. -/
inductive Statement where
  /-- An expression evaluated for its effects. -/
  | expression (offset : Nat) (value : Expr)
  /-- A local variable, with a type, an initial value, or both. -/
  | declaration (node : Node) (name : String) (type : Option String) (value : Option Expr)
  /-- Stores a value into a variable or a list element. -/
  | assignment (offset : Nat) (receiver value : Expr)
  /-- One of two branches; an absent `ELSE` is an empty list. -/
  | conditional (offset : Nat) (condition : Expr) (onTrue onFalse : List Statement)
  /-- The first case whose value equals the condition, or else the default. -/
  | switch (offset : Nat) (condition : Expr) (cases : List Case)
  /-- A loop whose condition is tested before each round. -/
  | loop (offset : Nat) (condition : Expr) (body : List Statement)
  /-- Ends the function with a value. -/
  | returning (offset : Nat) (value : Expr)

/-- One arm of a `SWITCH`; the default arm has no value. -/
inductive Case where
  | mk (offset : Nat) (value : Option Expr) (body : List Statement)

end

instance : Inhabited Statement := ⟨.expression 0 default⟩

instance : Inhabited Case := ⟨.mk 0 none []⟩

namespace Statement

/-- The source offset of a statement. -/
def offset : Statement → Nat
  | expression o _ | assignment o _ _ | conditional o _ _ _ | switch o _ _ | loop o _ _ | returning o _ => o
  | declaration n _ _ _ => n.offset

end Statement

namespace Case

/-- The source offset of an arm. -/
def offset : Case → Nat
  | mk o _ _ => o

/-- The value that selects an arm. -/
def value : Case → Option Expr
  | mk _ v _ => v

/-- The statements of an arm. -/
def body : Case → List Statement
  | mk _ _ b => b

end Case

/-! ## §3 Declarations -/

/-- A parameter of a function. -/
structure Parameter where
  node : Node
  name : String
  /-- The name of its type. -/
  type : String
deriving DecidableEq, Repr, Inhabited

/-- A function definition. -/
structure Function where
  node : Node
  name : String
  parameters : List Parameter
  /-- The name of its return type, if it is written. -/
  returns : Option String
  body : List Statement
deriving Inhabited

/-- The number of parameters. -/
def Function.arity (f : Function) : Nat :=
  f.parameters.length

/-- A global variable. -/
structure Global where
  node : Node
  name : String
  /-- Whether it may be assigned. -/
  mutable : Bool
  /-- The name of its type, if it is written; for a list the type of its elements. -/
  type : Option String
  /-- Its initial value; a list is written element by element. -/
  value : Option Expr
deriving Inhabited

/-- Whether the initial value of a global is a written list. -/
def Global.isList (g : Global) : Bool :=
  g.value.any Expr.isList

/-- A whole program. -/
structure Program where
  globals : List Global
  functions : List Function
deriving Inhabited

/-- Whether a function is the entry point: it is named `main` and has no parameters. -/
def Function.isEntry (f : Function) : Bool :=
  f.name = "main" && f.parameters.isEmpty

end BlockLang
