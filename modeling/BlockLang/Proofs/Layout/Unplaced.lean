import BlockLang.Pipeline

/-!
# Without offsets

What is left of tokens, trees and errors when all offsets are taken away.  Two source texts that differ in their layout
alone have the same tokens apart from offsets; two trees are the same up to offsets if they are equal without them.
Node ids stay.

## Main definitions

- `Token.unplaced`, `Program.unplaced`, `Failure.unplaced`: tokens, programs and failures without their offsets.
-/

namespace BlockLang

/-! ## §1 Tokens and trees -/

/-- A token without its offset. -/
def Token.unplaced (t : Token) : Token :=
  { t with offset := 0 }

/-- A node without its offset. -/
def Node.unplaced (n : Node) : Node :=
  { n with offset := 0 }

namespace Expr

mutual

/-- An expression without offsets. -/
def unplaced : Expr → Expr
  | .literal n value => .literal n.unplaced value
  | .group n inner => .group n.unplaced inner.unplaced
  | .binary n op left right => .binary n.unplaced op left.unplaced right.unplaced
  | .variable n name => .variable n.unplaced name
  | .element n name index => .element n.unplaced name index.unplaced
  | .call n name arguments => .call n.unplaced name (allUnplaced arguments)
  | .list n elements => .list n.unplaced (allUnplaced elements)

/-- Expressions without offsets. -/
def allUnplaced : List Expr → List Expr
  | [] => []
  | e :: rest => e.unplaced :: allUnplaced rest

end

@[simp] theorem allUnplaced_eq (es : List Expr) : allUnplaced es = es.map unplaced := by
  induction es with
  | nil => rfl
  | cons e rest ih => rw [allUnplaced, ih, List.map_cons]

@[simp] theorem offset_unplaced (e : Expr) : e.unplaced.offset = 0 := by
  cases e <;> rfl

@[simp] theorem isBinary_unplaced (e : Expr) : e.unplaced.isBinary = e.isBinary := by
  cases e <;> rfl

@[simp] theorem isList_unplaced (e : Expr) : e.unplaced.isList = e.isList := by
  cases e <;> rfl

end Expr

mutual

/-- A statement without offsets. -/
def Statement.unplaced : Statement → Statement
  | .expression _ value => .expression 0 value.unplaced
  | .declaration n name type value => .declaration n.unplaced name type (value.map Expr.unplaced)
  | .assignment _ receiver value => .assignment 0 receiver.unplaced value.unplaced
  | .conditional _ condition onTrue onFalse =>
    .conditional 0 condition.unplaced (blockUnplaced onTrue) (blockUnplaced onFalse)
  | .switch _ condition cases => .switch 0 condition.unplaced (armsUnplaced cases)
  | .loop _ condition body => .loop 0 condition.unplaced (blockUnplaced body)
  | .returning _ value => .returning 0 value.unplaced

/-- Statements without offsets. -/
def blockUnplaced : List Statement → List Statement
  | [] => []
  | first :: rest => first.unplaced :: blockUnplaced rest

/-- An arm of a switch without offsets. -/
def Case.unplaced : Case → Case
  | .mk _ value body => .mk 0 (value.map Expr.unplaced) (blockUnplaced body)

/-- The arms of a switch without offsets. -/
def armsUnplaced : List Case → List Case
  | [] => []
  | arm :: rest => arm.unplaced :: armsUnplaced rest

end

@[simp] theorem blockUnplaced_eq (body : List Statement) : blockUnplaced body = body.map Statement.unplaced := by
  induction body with
  | nil => rfl
  | cons first rest ih => rw [blockUnplaced, ih, List.map_cons]

@[simp] theorem armsUnplaced_eq (arms : List Case) : armsUnplaced arms = arms.map Case.unplaced := by
  induction arms with
  | nil => rfl
  | cons arm rest ih => rw [armsUnplaced, ih, List.map_cons]

/-- A parameter without its offset. -/
def Parameter.unplaced (p : Parameter) : Parameter :=
  { p with node := p.node.unplaced }

/-- A function without offsets. -/
def Function.unplaced (f : Function) : Function :=
  { f with
    node := f.node.unplaced
    parameters := f.parameters.map Parameter.unplaced
    body := f.body.map Statement.unplaced }

@[simp] theorem Function.arity_unplaced (f : Function) : f.unplaced.arity = f.arity :=
  List.length_map _

@[simp] theorem Function.isEntry_unplaced (f : Function) : f.unplaced.isEntry = f.isEntry := by
  unfold Function.isEntry Function.unplaced
  rw [List.isEmpty_map]

/-- A global without offsets. -/
def Global.unplaced (g : Global) : Global :=
  { g with node := g.node.unplaced, value := g.value.map Expr.unplaced }

@[simp] theorem Global.isList_unplaced (g : Global) : g.unplaced.isList = g.isList := by
  unfold Global.isList Global.unplaced
  cases g.value with
  | none => rfl
  | some e => exact e.isList_unplaced

/-- A program without offsets. -/
def Program.unplaced (p : Program) : Program :=
  ⟨p.globals.map Global.unplaced, p.functions.map Function.unplaced⟩

/-! ## §2 Errors -/

/-- A lexical error without its offset. -/
def LexicalError.unplaced : LexicalError → LexicalError
  | unexpectedCharacter character _ => unexpectedCharacter character 0
  | unterminatedLiteral _ => unterminatedLiteral 0
  | invalidEscape _ => invalidEscape 0
  | lineBreakInLiteral _ => lineBreakInLiteral 0
  | emptyCharacter _ => emptyCharacter 0

/-- A grammar error without its offset. -/
def GrammarError.unplaced : GrammarError → GrammarError
  | unexpectedToken expected found _ => unexpectedToken expected found 0
  | unexpectedEnd expected _ => unexpectedEnd expected 0
  | emptyBlock _ => emptyBlock 0
  | missingFunction _ => missingFunction 0
  | invalidLiteral text _ => invalidLiteral text 0

/-- A typing error without its offset. -/
def TypingError.unplaced : TypingError → TypingError
  | missingMain => missingMain
  | invalidMainReturn found _ => invalidMainReturn found 0
  | unknownType name _ => unknownType name 0
  | unknownVariable name _ => unknownVariable name 0
  | unknownFunction name arity _ => unknownFunction name arity 0
  | alreadyDefined name _ => alreadyDefined name 0
  | notAssignable target found _ => notAssignable target found 0
  | variableMismatch name target found _ => variableMismatch name target found 0
  | invalidOperands op left right _ => invalidOperands op left right 0
  | notAList name _ => notAList name 0
  | listRequired _ => listRequired 0
  | invalidGroup _ => invalidGroup 0
  | invalidReceiver _ => invalidReceiver 0
  | missingDeclarationType name _ => missingDeclarationType name 0
  | integerTooLarge _ => integerTooLarge 0
  | decimalTooLarge _ => decimalTooLarge 0
  | emptyBranch _ => emptyBranch 0

/-- A runtime error without its offset. -/
def RunError.unplaced : RunError → RunError
  | unknownVariable name _ => unknownVariable name 0
  | unknownFunction name arity _ => unknownFunction name arity 0
  | alreadyDefined name _ => alreadyDefined name 0
  | immutableAssignment name _ => immutableAssignment name 0
  | divisionByZero _ => divisionByZero 0
  | indexOutOfBounds index length _ => indexOutOfBounds index length 0
  | typeFault fault _ => typeFault fault 0
  | cyclicList name _ => cyclicList name 0
  | invalidExponent _ => invalidExponent 0
  | outputFailed cause => outputFailed cause

/-- A stop without the offset of its error. -/
def Stop.unplaced : Stop → Stop
  | error e => error e.unplaced
  | outOfFuel => outOfFuel

/-- A failure without its offset. -/
def Failure.unplaced : Failure → Failure
  | lexical e => lexical e.unplaced
  | grammar e => grammar e.unplaced
  | typing e => typing e.unplaced
  | run e => run e.unplaced
  | outOfFuel => outOfFuel

end BlockLang
