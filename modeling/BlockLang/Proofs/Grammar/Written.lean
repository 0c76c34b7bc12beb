import BlockLang.Grammar.Program
import BlockLang.Proofs.Token.Form

/-!
# The written form of a program

A program tree is written as a sequence of symbols: words by their kind and text, literals by the value they denote.
Parentheses are written where the tree has a group and nowhere else, so the written form is that of the tree only if
its operators bind as the tree says; `WellFormed` states this and the other conditions under which a tree is written
at all.

## Layers

- `symbols`: the written form of each kind of node.
- `WellFormed`: the trees that the grammar can write.
- `ids`: the ids of a tree in the order in which reading hands them out.
- `Anchored`: every node bears the offset of the first token of its own segment.
- `outline`: a tree without its ids and offsets.
-/

namespace BlockLang

/-! ## §1 Symbols -/

/-- What one token contributes to the written form. -/
inductive Symbol where
  /-- A name, a reserved word, or punctuation. -/
  | word (kind : TokenKind) (text : String)
  /-- A literal, by the value that it denotes. -/
  | literal (value : Literal)
deriving DecidableEq, Repr

namespace Symbol

/-- A name or a reserved word. -/
def ident (text : String) : Symbol := .word .identifier text

/-- Punctuation. -/
def mark (text : String) : Symbol := .word .operator text

/-- Items with commas between them. -/
def commas : List (List Symbol) → List Symbol
  | [] => []
  | first :: rest => first ++ rest.flatMap (mark "," :: ·)

end Symbol

open BlockLang.Symbol

/-- The symbol that a token stands for.  A literal whose text denotes nothing stands for its text. -/
def Token.symbol (t : Token) : Symbol :=
  match Reader.literalOf? t with
  | some value => .literal value
  | none => .word t.kind t.text

/-- The symbol of a constant; three constants are reserved words. -/
def Literal.symbol : Literal → Symbol
  | .nil => ident "NIL"
  | .boolean true => ident "TRUE"
  | .boolean false => ident "FALSE"
  | value => .literal value

/-! ## §2 Written forms -/

namespace Expr

mutual

/-- The symbols of an expression. -/
def symbols : Expr → List Symbol
  | .literal _ value => [value.symbol]
  | .group _ inner => mark "(" :: inner.symbols ++ [mark ")"]
  | .binary _ op left right => left.symbols ++ mark op.symbol :: right.symbols
  | .variable _ x => [ident x]
  | .element _ x index => ident x :: mark "[" :: index.symbols ++ [mark "]"]
  | .call _ x arguments => ident x :: mark "(" :: commas (allSymbols arguments) ++ [mark ")"]
  | .list _ elements => mark "[" :: commas (allSymbols elements) ++ [mark "]"]

/-- The symbols of each of several expressions. -/
def allSymbols : List Expr → List (List Symbol)
  | [] => []
  | e :: rest => e.symbols :: allSymbols rest

end

end Expr

/-- The symbols of a type, if one is written. -/
def typeSymbols : Option String → List Symbol
  | none => []
  | some type => [mark ":", ident type]

/-- The symbols of an initial value, if there is one. -/
def valueSymbols : Option Expr → List Symbol
  | none => []
  | some value => mark "=" :: value.symbols

mutual

/-- The symbols of a statement. -/
def Statement.symbols : Statement → List Symbol
  | .expression _ value => value.symbols ++ [mark ";"]
  | .declaration _ x type value => ident "LET" :: ident x :: typeSymbols type ++ valueSymbols value ++ [mark ";"]
  | .assignment _ receiver value => receiver.symbols ++ mark "=" :: value.symbols ++ [mark ";"]
  | .conditional _ condition onTrue onFalse =>
    ident "IF" :: condition.symbols ++ ident "DO" :: blockSymbols onTrue ++
      (if onFalse.isEmpty then [] else ident "ELSE" :: blockSymbols onFalse) ++ [ident "END"]
  | .switch _ condition cases => ident "SWITCH" :: condition.symbols ++ armSymbols cases ++ [ident "END"]
  | .loop _ condition body => ident "WHILE" :: condition.symbols ++ ident "DO" :: blockSymbols body ++ [ident "END"]
  | .returning _ value => ident "RETURN" :: value.symbols ++ [mark ";"]

/-- The symbols of the statements of a block. -/
def blockSymbols : List Statement → List Symbol
  | [] => []
  | first :: rest => first.symbols ++ blockSymbols rest

/-- The symbols of an arm of a switch. -/
def Case.symbols : Case → List Symbol
  | .mk _ none body => ident "DEFAULT" :: blockSymbols body
  | .mk _ (some value) body => ident "CASE" :: value.symbols ++ mark ":" :: blockSymbols body

/-- The symbols of the arms of a switch. -/
def armSymbols : List Case → List Symbol
  | [] => []
  | arm :: rest => arm.symbols ++ armSymbols rest

end

/-- The symbols of a parameter. -/
def Parameter.symbols (p : Parameter) : List Symbol :=
  [ident p.name, mark ":", ident p.type]

/-- The symbols of a function. -/
def Function.symbols (f : Function) : List Symbol :=
  ident "FUN" :: ident f.name :: mark "(" :: commas (f.parameters.map Parameter.symbols) ++ mark ")" ::
    typeSymbols f.returns ++ ident "DO" :: blockSymbols f.body ++ [ident "END"]

/-- The reserved word that a global begins with. -/
def Global.keyword (g : Global) : String :=
  if g.isList then "LIST" else if g.mutable then "VAR" else "VAL"

/-- Without a list, mutability tells the reserved word. -/
theorem Global.keyword_of_isList {g : Global} (h : g.isList = false) :
    g.keyword = if g.mutable then "VAR" else "VAL" := by
  rw [keyword, h]
  rfl

/-- The symbols of a global. -/
def Global.symbols (g : Global) : List Symbol :=
  ident g.keyword :: ident g.name :: typeSymbols g.type ++ valueSymbols g.value ++ [mark ";"]

/-- The symbols of a program. -/
def Program.symbols (p : Program) : List Symbol :=
  p.globals.flatMap Global.symbols ++ p.functions.flatMap Function.symbols

theorem Expr.symbols_ne_nil (e : Expr) : e.symbols ≠ [] := by
  cases e <;> simp [Expr.symbols]

theorem Statement.symbols_ne_nil (x : Statement) : x.symbols ≠ [] := by
  cases x <;> simp [Statement.symbols]

/-! ## §3 Trees that the grammar can write -/

/-- Whether a text is a name that is not reserved. -/
def IsName (text : String) : Prop :=
  TokenKind.Form .identifier text.toList ∧ isKeyword text = false

/-- The level of the outermost operator; 5 for an expression without one. -/
def Expr.level : Expr → Nat
  | .binary _ op _ _ => op.level
  | _ => 5

namespace Expr

mutual

/-- The grammar can write the expression: the operands of each operator bind tighter than the operator, the left one
possibly as tight.  A list is none of the expressions. -/
def WellFormed : Expr → Prop
  | .literal _ _ => True
  | .group _ inner => inner.WellFormed
  | .binary _ op left right => op.level ≤ left.level ∧ op.level < right.level ∧ left.WellFormed ∧ right.WellFormed
  | .variable _ x => IsName x
  | .element _ x index => IsName x ∧ index.WellFormed
  | .call _ x arguments => IsName x ∧ AllWellFormed arguments
  | .list _ _ => False

/-- The grammar can write each of several expressions. -/
def AllWellFormed : List Expr → Prop
  | [] => True
  | e :: rest => e.WellFormed ∧ AllWellFormed rest

end

end Expr

mutual

/-- The grammar can write the statement. -/
def Statement.WellFormed : Statement → Prop
  | .expression _ value => value.WellFormed
  | .declaration _ x type value => IsName x ∧ (∀ t ∈ type, IsName t) ∧ ∀ v ∈ value, v.WellFormed
  | .assignment _ receiver value => receiver.WellFormed ∧ value.WellFormed
  | .conditional _ condition onTrue onFalse =>
    condition.WellFormed ∧ onTrue ≠ [] ∧ AllWellFormed onTrue ∧ AllWellFormed onFalse
  | .switch _ condition cases => condition.WellFormed ∧ ArmsWellFormed cases
  | .loop _ condition body => condition.WellFormed ∧ body ≠ [] ∧ AllWellFormed body
  | .returning _ value => value.WellFormed

/-- The grammar can write each statement of a block. -/
def AllWellFormed : List Statement → Prop
  | [] => True
  | first :: rest => first.WellFormed ∧ AllWellFormed rest

/-- The grammar can write the statements of an arm and its value, if it has one. -/
def Case.WellFormed : Case → Prop
  | .mk _ value body => (∀ v ∈ value, v.WellFormed) ∧ body ≠ [] ∧ AllWellFormed body

/-- The grammar can write the arms: the last one has no value and every other one has a value. -/
def ArmsWellFormed : List Case → Prop
  | [] => False
  | arm :: rest => arm.WellFormed ∧ ((rest = [] ∧ arm.value = none) ∨ (arm.value ≠ none ∧ ArmsWellFormed rest))

end

/-- The grammar can write the function. -/
def Function.WellFormed (f : Function) : Prop :=
  IsName f.name ∧ (∀ p ∈ f.parameters, IsName p.name ∧ IsName p.type) ∧ (∀ t ∈ f.returns, IsName t) ∧
    f.body ≠ [] ∧ AllWellFormed f.body

/-- The grammar can write the initial value of a global: a list has elements and is mutable and typed, and a constant
has a value. -/
def Global.ValueWellFormed (g : Global) : Prop :=
  match g.value with
  | none => g.mutable = true
  | some (.list _ elements) => g.mutable = true ∧ g.type ≠ none ∧ elements ≠ [] ∧ Expr.AllWellFormed elements
  | some value => value.WellFormed

/-- The grammar can write the global. -/
def Global.WellFormed (g : Global) : Prop :=
  IsName g.name ∧ (∀ t ∈ g.type, IsName t) ∧ g.ValueWellFormed

/-- The initial value is a list with elements, of a typed and mutable global, or else it is an expression or absent. -/
theorem Global.ValueWellFormed.cases {node : Node} {x : String} {isMutable : Bool} {type : Option String}
    {value : Option Expr} (h : Global.ValueWellFormed ⟨node, x, isMutable, type, value⟩) :
    (∃ t n elements, isMutable = true ∧ type = some t ∧ value = some (.list n elements) ∧ elements ≠ [] ∧
      Expr.AllWellFormed elements) ∨
    (Global.isList ⟨node, x, isMutable, type, value⟩ = false ∧ (∀ e ∈ value, e.WellFormed) ∧
      (value = none → isMutable = true)) := by
  cases value with
  | none => exact .inr ⟨rfl, nofun, fun _ => h⟩
  | some e =>
    cases e with
    | list n elements =>
      obtain ⟨hmutable, htyped, hne, helements⟩ := h
      obtain ⟨t, htype⟩ := Option.ne_none_iff_exists'.mp htyped
      exact .inl ⟨t, n, elements, hmutable, htype, rfl, hne, helements⟩
    | _ => exact .inr ⟨rfl, fun _ he => Option.some.inj he ▸ h, nofun⟩

/-- The grammar can write the program. -/
structure Program.WellFormed (p : Program) : Prop where
  globals : ∀ g ∈ p.globals, g.WellFormed
  functions : ∀ f ∈ p.functions, f.WellFormed
  nonempty : p.functions ≠ []

/-! ## §4 Ids -/

namespace Expr

mutual

/-- The ids of an expression: a list comes before its elements, every other node after its parts. -/
def ids : Expr → List Nat
  | .literal n _ | .variable n _ => [n.id]
  | .group n inner => inner.ids ++ [n.id]
  | .binary n _ left right => left.ids ++ right.ids ++ [n.id]
  | .element n _ index => index.ids ++ [n.id]
  | .call n _ arguments => allIds arguments ++ [n.id]
  | .list n elements => n.id :: allIds elements

/-- The ids of several expressions. -/
def allIds : List Expr → List Nat
  | [] => []
  | e :: rest => e.ids ++ allIds rest

end

/-- The ids of an optional expression. -/
def optionIds : Option Expr → List Nat
  | none => []
  | some e => e.ids

end Expr

mutual

/-- The ids of a statement; a declaration comes before its initial value. -/
def Statement.ids : Statement → List Nat
  | .expression _ value | .returning _ value => value.ids
  | .declaration n _ _ value => n.id :: Expr.optionIds value
  | .assignment _ receiver value => receiver.ids ++ value.ids
  | .conditional _ condition onTrue onFalse => condition.ids ++ blockIds onTrue ++ blockIds onFalse
  | .switch _ condition cases => condition.ids ++ armIds cases
  | .loop _ condition body => condition.ids ++ blockIds body

/-- The ids of the statements of a block. -/
def blockIds : List Statement → List Nat
  | [] => []
  | first :: rest => first.ids ++ blockIds rest

/-- The ids of an arm of a switch. -/
def Case.ids : Case → List Nat
  | .mk _ value body => Expr.optionIds value ++ blockIds body

/-- The ids of the arms of a switch. -/
def armIds : List Case → List Nat
  | [] => []
  | arm :: rest => arm.ids ++ armIds rest

end

/-- The ids of a function. -/
def Function.ids (f : Function) : List Nat :=
  f.node.id :: f.parameters.map (fun p => p.node.id) ++ blockIds f.body

/-- The ids of a global. -/
def Global.ids (g : Global) : List Nat :=
  g.node.id :: Expr.optionIds g.value

/-- The ids of a program. -/
def Program.ids (p : Program) : List Nat :=
  p.globals.flatMap Global.ids ++ p.functions.flatMap Function.ids

/-! ## §5 Offsets -/

/-- The first of some tokens stands at an offset. -/
def StartsAt (offset : Nat) (ts : List Token) : Prop :=
  ts.head?.map Token.offset = some offset

namespace Expr

mutual

/-- Every node of an expression whose segment begins the given tokens bears the offset of the first token of its own
segment.  A segment has as many tokens as its written form has symbols. -/
def Anchored : Expr → List Token → Prop
  | .literal n _, ts | .variable n _, ts => StartsAt n.offset ts
  | .group n inner, ts => StartsAt n.offset ts ∧ inner.Anchored (ts.drop 1)
  | .binary n _ left right, ts =>
    StartsAt n.offset ts ∧ left.Anchored ts ∧ right.Anchored (ts.drop (left.symbols.length + 1))
  | .element n _ index, ts => StartsAt n.offset ts ∧ index.Anchored (ts.drop 2)
  | .call n _ arguments, ts => StartsAt n.offset ts ∧ AllAnchored arguments (ts.drop 2)
  | .list n elements, ts => StartsAt n.offset ts ∧ AllAnchored elements (ts.drop 1)

/-- `Anchored` for expressions with a comma between them. -/
def AllAnchored : List Expr → List Token → Prop
  | [], _ => True
  | e :: rest, ts => e.Anchored ts ∧ AllAnchored rest (ts.drop (e.symbols.length + 1))

end

/-- `Anchored` for an initial value, which stands after an equals sign. -/
def OptionAnchored : Option Expr → List Token → Prop
  | none, _ => True
  | some e, ts => e.Anchored (ts.drop 1)

end Expr

mutual

/-- `Expr.Anchored` for a statement. -/
def Statement.Anchored : Statement → List Token → Prop
  | .expression o value, ts => StartsAt o ts ∧ value.Anchored ts
  | .declaration n _ type value, ts =>
    StartsAt n.offset ts ∧ Expr.OptionAnchored value (ts.drop (2 + (typeSymbols type).length))
  | .assignment o receiver value, ts =>
    StartsAt o ts ∧ receiver.Anchored ts ∧ value.Anchored (ts.drop (receiver.symbols.length + 1))
  | .conditional o condition onTrue onFalse, ts =>
    StartsAt o ts ∧ condition.Anchored (ts.drop 1) ∧ BlockAnchored onTrue (ts.drop (condition.symbols.length + 2)) ∧
      BlockAnchored onFalse (ts.drop (condition.symbols.length + (blockSymbols onTrue).length + 3))
  | .switch o condition cases, ts =>
    StartsAt o ts ∧ condition.Anchored (ts.drop 1) ∧ ArmsAnchored cases (ts.drop (condition.symbols.length + 1))
  | .loop o condition body, ts =>
    StartsAt o ts ∧ condition.Anchored (ts.drop 1) ∧ BlockAnchored body (ts.drop (condition.symbols.length + 2))
  | .returning o value, ts => StartsAt o ts ∧ value.Anchored (ts.drop 1)

/-- `Statement.Anchored` for the statements of a block. -/
def BlockAnchored : List Statement → List Token → Prop
  | [], _ => True
  | first :: rest, ts => first.Anchored ts ∧ BlockAnchored rest (ts.drop first.symbols.length)

/-- `Statement.Anchored` for an arm of a switch. -/
def Case.Anchored : Case → List Token → Prop
  | .mk o none body, ts => StartsAt o ts ∧ BlockAnchored body (ts.drop 1)
  | .mk o (some value) body, ts =>
    StartsAt o ts ∧ value.Anchored (ts.drop 1) ∧ BlockAnchored body (ts.drop (value.symbols.length + 2))

/-- `Statement.Anchored` for the arms of a switch. -/
def ArmsAnchored : List Case → List Token → Prop
  | [], _ => True
  | arm :: rest, ts => arm.Anchored ts ∧ ArmsAnchored rest (ts.drop arm.symbols.length)

end

/-- `Expr.Anchored` for a parameter. -/
def Parameter.Anchored (p : Parameter) (ts : List Token) : Prop :=
  StartsAt p.node.offset ts

/-- `Expr.Anchored` for phrases with a comma between them, each with its written form. -/
def CommasAnchored {α : Type} (symbols : α → List Symbol) (anchored : α → List Token → Prop) :
    List α → List Token → Prop
  | [], _ => True
  | x :: rest, ts => anchored x ts ∧ CommasAnchored symbols anchored rest (ts.drop ((symbols x).length + 1))

/-- `Expr.Anchored` for a function. -/
def Function.Anchored (f : Function) (ts : List Token) : Prop :=
  StartsAt f.node.offset ts ∧ CommasAnchored Parameter.symbols Parameter.Anchored f.parameters (ts.drop 3) ∧
    BlockAnchored f.body
      (ts.drop (5 + (commas (f.parameters.map Parameter.symbols)).length + (typeSymbols f.returns).length))

/-- `Expr.Anchored` for a global. -/
def Global.Anchored (g : Global) (ts : List Token) : Prop :=
  StartsAt g.node.offset ts ∧ Expr.OptionAnchored g.value (ts.drop (2 + (typeSymbols g.type).length))

/-- `Expr.Anchored` for phrases one after the other, each with its written form. -/
def InRowAnchored {α : Type} (symbols : α → List Symbol) (anchored : α → List Token → Prop) :
    List α → List Token → Prop
  | [], _ => True
  | x :: rest, ts => anchored x ts ∧ InRowAnchored symbols anchored rest (ts.drop (symbols x).length)

/-- Every node of a program that the tokens write bears the offset of the first token of its own segment. -/
def Program.Anchored (p : Program) (ts : List Token) : Prop :=
  InRowAnchored Global.symbols Global.Anchored p.globals ts ∧
    InRowAnchored Function.symbols Function.Anchored p.functions
      (ts.drop (p.globals.flatMap Global.symbols).length)

/-! ## §6 Outlines -/

/-- The node of an outline. -/
def Node.blank : Node := ⟨0, 0⟩

namespace Expr

mutual

/-- An expression without its ids and offsets. -/
def outline : Expr → Expr
  | .literal _ value => .literal .blank value
  | .group _ inner => .group .blank inner.outline
  | .binary _ op left right => .binary .blank op left.outline right.outline
  | .variable _ x => .variable .blank x
  | .element _ x index => .element .blank x index.outline
  | .call _ x arguments => .call .blank x (allOutline arguments)
  | .list _ elements => .list .blank (allOutline elements)

/-- Expressions without their ids and offsets. -/
def allOutline : List Expr → List Expr
  | [] => []
  | e :: rest => e.outline :: allOutline rest

end

end Expr

mutual

/-- A statement without its ids and offsets. -/
def Statement.outline : Statement → Statement
  | .expression _ value => .expression 0 value.outline
  | .declaration _ x type value => .declaration .blank x type (value.map Expr.outline)
  | .assignment _ receiver value => .assignment 0 receiver.outline value.outline
  | .conditional _ condition onTrue onFalse =>
    .conditional 0 condition.outline (blockOutline onTrue) (blockOutline onFalse)
  | .switch _ condition cases => .switch 0 condition.outline (armsOutline cases)
  | .loop _ condition body => .loop 0 condition.outline (blockOutline body)
  | .returning _ value => .returning 0 value.outline

/-- The statements of a block without their ids and offsets. -/
def blockOutline : List Statement → List Statement
  | [] => []
  | first :: rest => first.outline :: blockOutline rest

/-- An arm of a switch without its ids and offsets. -/
def Case.outline : Case → Case
  | .mk _ value body => .mk 0 (value.map Expr.outline) (blockOutline body)

/-- The arms of a switch without their ids and offsets. -/
def armsOutline : List Case → List Case
  | [] => []
  | arm :: rest => arm.outline :: armsOutline rest

end

/-- A parameter without its id and offset. -/
def Parameter.outline (p : Parameter) : Parameter :=
  { p with node := .blank }

/-- A function without its ids and offsets. -/
def Function.outline (f : Function) : Function :=
  { f with node := .blank, parameters := f.parameters.map Parameter.outline, body := blockOutline f.body }

/-- A global without its ids and offsets. -/
def Global.outline (g : Global) : Global :=
  { g with node := .blank, value := g.value.map Expr.outline }

/-- A program without its ids and offsets. -/
def Program.outline (p : Program) : Program :=
  ⟨p.globals.map Global.outline, p.functions.map Function.outline⟩

/-! ## §7 Lists of phrases

The functions on lists of parts are those on single parts, applied to each of them. -/

namespace Expr

@[simp] theorem allSymbols_eq (es : List Expr) : allSymbols es = es.map symbols := by
  induction es with
  | nil => rfl
  | cons e rest ih => rw [allSymbols, ih, List.map_cons]

@[simp] theorem allIds_eq (es : List Expr) : allIds es = es.flatMap ids := by
  induction es with
  | nil => rfl
  | cons e rest ih => rw [allIds, ih, List.flatMap_cons]

@[simp] theorem allWellFormed_iff (es : List Expr) : AllWellFormed es ↔ ∀ e ∈ es, e.WellFormed := by
  induction es with
  | nil => simp [AllWellFormed]
  | cons e rest ih => simp [AllWellFormed, ih]

@[simp] theorem allAnchored_iff (es : List Expr) (ts : List Token) :
    AllAnchored es ts ↔ CommasAnchored symbols Anchored es ts := by
  induction es generalizing ts with
  | nil => simp [AllAnchored, CommasAnchored]
  | cons e rest ih => simp [AllAnchored, CommasAnchored, ih]

@[simp] theorem allOutline_eq (es : List Expr) : allOutline es = es.map outline := by
  induction es with
  | nil => rfl
  | cons e rest ih => rw [allOutline, ih, List.map_cons]

end Expr

@[simp] theorem blockSymbols_eq (body : List Statement) : blockSymbols body = body.flatMap Statement.symbols := by
  induction body with
  | nil => rfl
  | cons first rest ih => rw [blockSymbols, ih, List.flatMap_cons]

@[simp] theorem armSymbols_eq (cases : List Case) : armSymbols cases = cases.flatMap Case.symbols := by
  induction cases with
  | nil => rfl
  | cons arm rest ih => rw [armSymbols, ih, List.flatMap_cons]

@[simp] theorem blockIds_eq (body : List Statement) : blockIds body = body.flatMap Statement.ids := by
  induction body with
  | nil => rfl
  | cons first rest ih => rw [blockIds, ih, List.flatMap_cons]

@[simp] theorem armIds_eq (cases : List Case) : armIds cases = cases.flatMap Case.ids := by
  induction cases with
  | nil => rfl
  | cons arm rest ih => rw [armIds, ih, List.flatMap_cons]

@[simp] theorem allWellFormed_iff (body : List Statement) : AllWellFormed body ↔ ∀ s ∈ body, s.WellFormed := by
  induction body with
  | nil => simp [AllWellFormed]
  | cons first rest ih => simp [AllWellFormed, ih]

@[simp] theorem blockAnchored_iff (body : List Statement) (ts : List Token) :
    BlockAnchored body ts ↔ InRowAnchored Statement.symbols Statement.Anchored body ts := by
  induction body generalizing ts with
  | nil => simp [BlockAnchored, InRowAnchored]
  | cons first rest ih => simp [BlockAnchored, InRowAnchored, ih]

@[simp] theorem armsAnchored_iff (cases : List Case) (ts : List Token) :
    ArmsAnchored cases ts ↔ InRowAnchored Case.symbols Case.Anchored cases ts := by
  induction cases generalizing ts with
  | nil => simp [ArmsAnchored, InRowAnchored]
  | cons arm rest ih => simp [ArmsAnchored, InRowAnchored, ih]

@[simp] theorem blockOutline_eq (body : List Statement) : blockOutline body = body.map Statement.outline := by
  induction body with
  | nil => rfl
  | cons first rest ih => rw [blockOutline, ih, List.map_cons]

@[simp] theorem armsOutline_eq (cases : List Case) : armsOutline cases = cases.map Case.outline := by
  induction cases with
  | nil => rfl
  | cons arm rest ih => rw [armsOutline, ih, List.map_cons]

theorem inRowAnchored_append {α : Type} {symbols : α → List Symbol} {anchored : α → List Token → Prop}
    (xs ys : List α) (ts : List Token) : InRowAnchored symbols anchored (xs ++ ys) ts ↔
      InRowAnchored symbols anchored xs ts ∧
        InRowAnchored symbols anchored ys (ts.drop (xs.flatMap symbols).length) := by
  induction xs generalizing ts with
  | nil => simp [InRowAnchored]
  | cons x rest ih => simp [InRowAnchored, ih, and_assoc]

/-- Arms that the grammar can write are arms with values and a last one without. -/
theorem armsWellFormed_iff (cases : List Case) : ArmsWellFormed cases ↔
    ∃ valued offset body, cases = valued ++ [.mk offset none body] ∧ body ≠ [] ∧ (∀ s ∈ body, s.WellFormed) ∧
      ∀ arm ∈ valued, arm.WellFormed ∧ arm.value ≠ none := by
  induction cases with
  | nil => simp [ArmsWellFormed]
  | cons arm rest ih =>
    rw [ArmsWellFormed]
    constructor
    -- An arm without a value is the last one, and with a value there are more behind it.
    · rintro ⟨harm, ⟨rfl, hvalue⟩ | ⟨hvalue, hrest⟩⟩
      · obtain ⟨offset, value, body⟩ := arm
        obtain rfl : value = none := hvalue
        obtain ⟨-, hne, hbody⟩ := harm
        exact ⟨[], offset, body, rfl, hne, (allWellFormed_iff body).mp hbody, by simp⟩
      · obtain ⟨valued, offset, body, rfl, hne, hbody, hall⟩ := ih.mp hrest
        refine ⟨arm :: valued, offset, body, rfl, hne, hbody, ?_⟩
        intro other hmem
        rcases List.mem_cons.mp hmem with rfl | hmem
        · exact ⟨harm, hvalue⟩
        · exact hall other hmem
    · rintro ⟨valued, offset, body, heq, hne, hbody, hall⟩
      cases valued with
      | nil =>
        obtain ⟨rfl, rfl⟩ := List.cons.inj heq
        exact ⟨⟨by simp, hne, (allWellFormed_iff body).mpr hbody⟩, Or.inl ⟨rfl, rfl⟩⟩
      | cons first more =>
        obtain ⟨rfl, rfl⟩ := List.cons.inj heq
        obtain ⟨harm, hvalue⟩ := hall arm (List.mem_cons_self ..)
        refine ⟨harm, Or.inr ⟨hvalue, ih.mpr ⟨more, offset, body, rfl, hne, hbody, ?_⟩⟩⟩
        exact fun other hmem => hall other (List.mem_cons_of_mem _ hmem)

/-! ## §8 A program

A sum, one of whose operands is a product. -/

/-- The text of the sum. -/
def sumSource : String := "FUN main() DO RETURN 1.50 + 2 * 3; END"

/-- The tokens of the sum. -/
def sumTokens : List Token :=
  [⟨.identifier, "FUN", 0⟩, ⟨.identifier, "main", 4⟩, ⟨.operator, "(", 8⟩, ⟨.operator, ")", 9⟩, ⟨.identifier, "DO", 11⟩,
    ⟨.identifier, "RETURN", 14⟩, ⟨.decimal, "1.50", 21⟩, ⟨.operator, "+", 26⟩, ⟨.integer, "2", 28⟩,
    ⟨.operator, "*", 30⟩, ⟨.integer, "3", 32⟩, ⟨.operator, ";", 33⟩, ⟨.identifier, "END", 35⟩]

/-- The tree of the sum. -/
def sumProgram : Program :=
  ⟨[], [⟨⟨0, 0⟩, "main", [], none, [.returning 14
    (.binary ⟨5, 21⟩ .add (.literal ⟨1, 21⟩ (.decimal ⟨150, 2⟩))
      (.binary ⟨4, 28⟩ .mul (.literal ⟨2, 28⟩ (.integer 2)) (.literal ⟨3, 32⟩ (.integer 3))))]⟩]⟩

theorem tokenize_sumSource : tokenize sumSource = .ok sumTokens := by
  decide +kernel

theorem parse_sumTokens : parse sumTokens = .ok sumProgram := by
  rfl

end BlockLang
