import BlockLang.Proofs.Layout.Unplaced
import BlockLang.Proofs.Stateful

/-!
# Reading without offsets

Readers copy offsets into nodes and errors and do nothing else with them.  So reading tokens without offsets gives what
reading the tokens gives, without offsets.  Each reader is compared with itself; where it is given an offset or another
reader, it is compared with itself on an offset that is gone and on a reader that has been compared already.

## Main statement

- `parse_unplaced`: tokens that agree up to offsets are read as trees, or refused with errors, that agree up to offsets.
-/

namespace BlockLang

open Stateful

/-! ## §1 Places -/

namespace ReaderState

/-- A place among tokens without offsets. -/
def unplaced (s : ReaderState) : ReaderState :=
  ⟨s.rest.map Token.unplaced, 0, s.nextId⟩

variable (s : ReaderState)

@[simp] theorem current_unplaced : s.unplaced.current = s.current.map Token.unplaced := by
  unfold current unplaced
  rw [List.head?_map]

@[simp] theorem offset_unplaced : s.unplaced.offset = 0 := by
  unfold offset
  rw [current_unplaced]
  cases s.current <;> rfl

@[simp] theorem peek_unplaced (text : String) : s.unplaced.peek text = s.peek text := by
  unfold peek
  rw [current_unplaced]
  cases s.current <;> rfl

@[simp] theorem peekOneOf_unplaced (texts : List String) : s.unplaced.peekOneOf texts = s.peekOneOf texts := by
  unfold peekOneOf
  rw [current_unplaced]
  cases s.current <;> rfl

@[simp] theorem advance_unplaced : s.unplaced.advance = s.advance.unplaced := by
  unfold advance unplaced
  rw [List.map_drop]

@[simp] theorem unexpected_unplaced (expected : Expectation) :
    s.unplaced.unexpected expected = (s.unexpected expected).unplaced := by
  unfold unexpected
  rw [current_unplaced]
  cases s.current <;> rfl

end ReaderState

namespace Reader

/-- The literal of a token does not depend on its place. -/
theorem literalOf?_place (kind : TokenKind) (text : String) (offset : Nat) :
    literalOf? ⟨kind, text, offset⟩ = literalOf? ⟨kind, text, 0⟩ := by
  cases kind <;> rfl

/-- The second reader yields from tokens without offsets what the first one yields from the tokens, as the given
function says, and fails with the same errors up to offsets. -/
abbrev Unplaces {α β : Type} (onValue : α → β) (r : Reader α) (r' : Reader β) : Prop :=
  Translates GrammarError.unplaced ReaderState.unplaced onValue r r'

namespace Unplaces

variable {α α' β β' : Type} {u : α → α'} {v : β → β'} {r : Reader α} {r' : Reader α'} {k : α → Reader β}
  {k' : α' → Reader β'}

/-! ## §2 Single steps -/

theorem offset : Unplaces (fun _ => 0) Reader.offset Reader.offset :=
  fun s => congrArg (EStateM.Result.ok · s.unplaced) s.offset_unplaced

theorem advance : Unplaces id Reader.advance Reader.advance :=
  Translates.modify ReaderState.advance_unplaced

theorem freshId : Unplaces id Reader.freshId Reader.freshId :=
  fun _ => rfl

theorem unexpected (expected : Expectation) : Unplaces u (Reader.unexpected expected) (Reader.unexpected expected) := by
  refine Translates.get_bind fun s => ?_
  rw [s.unexpected_unplaced]
  exact .throw _

theorem eat (text : String) : Unplaces id (Reader.eat text) (Reader.eat text) := by
  refine Translates.get_bind fun s => ?_
  rw [s.peek_unplaced]
  exact .ite (.bind advance fun _ => .pure true) (.pure false)

/-- A text that is eaten decides which of two readers goes on. -/
theorem choice (text : String) {a d : Reader α} {a' d' : Reader α'} (ha : Unplaces u a a') (hd : Unplaces u d d') :
    Unplaces u (Reader.eat text >>= fun found => if found = true then a else d)
      (Reader.eat text >>= fun found => if found = true then a' else d') :=
  .bind (eat text) fun _ => .ite ha hd

theorem expect (text : String) : Unplaces id (Reader.expect text) (Reader.expect text) := by
  refine Translates.get_bind fun s => ?_
  rw [s.peek_unplaced]
  exact .ite advance (unexpected _)

theorem identifier : Unplaces id Reader.identifier Reader.identifier := by
  refine Translates.get_bind fun s => ?_
  rw [s.current_unplaced]
  cases s.current with
  | none => exact unexpected _
  | some t => exact .ite (.bind advance fun _ => .pure t.text) (unexpected _)

theorem typeName? : Unplaces id Reader.typeName? Reader.typeName? :=
  choice ":" (.bind identifier fun name => .pure (some name)) (.pure none)

theorem operator? (level : Nat) : Unplaces id (Reader.operator? level) (Reader.operator? level) := by
  refine Translates.get_bind fun s => ?_
  rw [s.current_unplaced]
  cases s.current with
  | none => exact .pure none
  | some t =>
    have htext : t.unplaced.text = t.text := rfl
    refine .ite ?_ (.pure none)
    rw [htext]
    cases Operator.ofSymbol? t.text with
    | none => exact .pure none
    | some op => exact .ite (.bind advance fun _ => .pure (some op)) (.pure none)

/-! ## §3 Sequences -/

section

variable {item : Reader α} {item' : Reader α'} (hitem : Unplaces u item item')

include hitem

theorem moreItems (closing : String) (n : Nat) :
    Unplaces (List.map u) (Reader.moreItems item closing n) (Reader.moreItems item' closing n) := by
  induction n with
  | zero => exact unexpected _
  | succ n ih =>
    refine choice "," (.bind hitem fun x => .bind ih fun xs => .pure (x :: xs)) ?_
    exact choice closing (.pure []) (unexpected _)

theorem commaSeparated (closing : String) (n : Nat) :
    Unplaces (List.map u) (Reader.commaSeparated item closing n) (Reader.commaSeparated item' closing n) :=
  choice closing (.pure []) (.bind hitem fun x => .bind (moreItems hitem closing n) fun xs => .pure (x :: xs))

theorem many {more : ReaderState → Bool} (hmore : ∀ s : ReaderState, more s.unplaced = more s) (n : Nat) :
    Unplaces (List.map u) (Reader.many more item n) (Reader.many more item' n) := by
  induction n with
  | zero => exact .pure []
  | succ n ih =>
    refine Translates.get_bind fun s => ?_
    rw [hmore]
    exact .ite (.bind hitem fun x => .bind ih fun xs => .pure (x :: xs)) (.pure [])

end

/-! ## §4 Expressions -/

theorem literal (offset : Nat) (value : Literal) :
    Unplaces Expr.unplaced (Reader.literal offset value) (Reader.literal 0 value) :=
  .bind advance fun _ => .bind freshId fun id => .pure (Expr.literal ⟨id, offset⟩ value)

section

variable {expression : Reader Expr} (hexpression : Unplaces Expr.unplaced expression expression)

include hexpression

theorem named (n : Nat) : Unplaces Expr.unplaced (Reader.named expression n) (Reader.named expression n) := by
  refine .bind offset fun start => .bind identifier fun name => choice "(" ?_ (choice "[" ?_ ?_)
  · refine .bind (commaSeparated hexpression ")" n) fun arguments => .bind freshId fun id => ?_
    rw [← Expr.allUnplaced_eq]
    exact .pure (Expr.call ⟨id, start⟩ name arguments)
  · refine .bind hexpression fun index => .bind (expect "]") fun _ => .bind freshId fun id => ?_
    exact .pure (Expr.element ⟨id, start⟩ name index)
  · exact .bind freshId fun id => .pure (Expr.variable ⟨id, start⟩ name)

theorem parenthesized (start : Nat) :
    Unplaces Expr.unplaced (Reader.parenthesized expression start) (Reader.parenthesized expression 0) :=
  .bind advance fun _ => .bind hexpression fun inner => .bind (expect ")") fun _ => .bind freshId fun id =>
    .pure (Expr.group ⟨id, start⟩ inner)

theorem primary (n : Nat) : Unplaces Expr.unplaced (Reader.primary expression n) (Reader.primary expression n) := by
  refine Translates.get_bind fun s => ?_
  rw [s.current_unplaced]
  cases s.current with
  | none => exact unexpected _
  | some t =>
    obtain ⟨kind, text, start⟩ := t
    simp only [Option.map_some, Token.unplaced]
    -- The kind and the text of a token decide how it is read.
    cases kind with
    | identifier =>
      simp only
      cases constantOf? text with
      | some value => exact literal start value
      | none => exact .ite (unexpected _) (named hexpression n)
    | operator => exact .ite (parenthesized hexpression start) (unexpected _)
    | integer | decimal | character | string =>
      simp only [literalOf?_place _ text start]
      generalize literalOf? ⟨_, text, 0⟩ = found
      cases found with
      | some value => exact literal start value
      | none => exact .throw _

omit hexpression in
theorem chain (level : Nat) {operand : Reader Expr} (hoperand : Unplaces Expr.unplaced operand operand) (n : Nat)
    (left : Expr) :
    Unplaces Expr.unplaced (Reader.chain level operand n left) (Reader.chain level operand n left.unplaced) := by
  induction n generalizing left with
  | zero => exact .pure left
  | succ n ih =>
    apply Translates.bind (operator? level)
    intro found
    cases found with
    | none => exact .pure left
    | some op =>
      refine .bind hoperand fun right => .bind freshId fun id => ?_
      rw [left.offset_unplaced]
      exact ih (.binary ⟨id, left.offset⟩ op left right)

omit hexpression in
theorem operands (level : Nat) {operand : Reader Expr} (hoperand : Unplaces Expr.unplaced operand operand) (n : Nat) :
    Unplaces Expr.unplaced (Reader.operands level operand n) (Reader.operands level operand n) :=
  .bind hoperand fun left => chain level hoperand n left

theorem logical (n : Nat) : Unplaces Expr.unplaced (Reader.logical expression n) (Reader.logical expression n) :=
  operands 1 (operands 2 (operands 3 (operands 4 (primary hexpression n) n) n) n) n

end

theorem expressionWithin (n : Nat) :
    Unplaces Expr.unplaced (Reader.expressionWithin n) (Reader.expressionWithin n) := by
  induction n with
  | zero => exact unexpected _
  | succ n ih => exact logical ih n

/-! ## §5 Statements -/

section

variable {expression : Reader Expr} (hexpression : Unplaces Expr.unplaced expression expression)
  {statement : Reader Statement} (hstatement : Unplaces Statement.unplaced statement statement)

theorem statements (hstatement : Unplaces Statement.unplaced statement statement) (terminators : List String)
    (n : Nat) : Unplaces (List.map Statement.unplaced) (Reader.statements statement terminators n)
      (Reader.statements statement terminators n) := by
  induction n with
  | zero => exact unexpected _
  | succ n ih =>
    refine Translates.get_bind fun s => ?_
    rw [s.peekOneOf_unplaced, s.current_unplaced, Option.isNone_map]
    refine .ite (.pure []) (.ite (unexpected _) ?_)
    exact .bind hstatement fun first => .bind ih fun rest => .pure (first :: rest)

theorem block (hstatement : Unplaces Statement.unplaced statement statement) (terminators : List String) (n : Nat) :
    Unplaces (List.map Statement.unplaced) (Reader.block statement terminators n)
      (Reader.block statement terminators n) := by
  refine .bind (statements hstatement terminators n) fun body => ?_
  rw [List.isEmpty_map]
  exact .ite (.bind offset fun start => .throw (GrammarError.emptyBlock start)) (.pure body)

include hexpression

theorem initializer? :
    Unplaces (Option.map Expr.unplaced) (Reader.initializer? expression) (Reader.initializer? expression) :=
  choice "=" (.bind hexpression fun value => .pure (some value)) (.pure none)

theorem declaration (start : Nat) :
    Unplaces Statement.unplaced (Reader.declaration expression start) (Reader.declaration expression 0) :=
  .bind freshId fun id => .bind identifier fun name => .bind typeName? fun type =>
    .bind (initializer? hexpression) fun value => .bind (expect ";") fun _ =>
      .pure (Statement.declaration ⟨id, start⟩ name type value)

theorem returned (start : Nat) :
    Unplaces Statement.unplaced (Reader.returned expression start) (Reader.returned expression 0) :=
  .bind hexpression fun value => .bind (expect ";") fun _ => .pure (Statement.returning start value)

theorem effect (start : Nat) :
    Unplaces Statement.unplaced (Reader.effect expression start) (Reader.effect expression 0) := by
  refine .bind hexpression fun value => choice "=" ?_ ?_
  · refine .bind hexpression fun stored => .bind (expect ";") fun _ => ?_
    exact .pure (Statement.assignment start value stored)
  · exact .bind (expect ";") fun _ => .pure (Statement.expression start value)

include hstatement

theorem valueCase (n : Nat) :
    Unplaces Case.unplaced (Reader.valueCase expression statement n) (Reader.valueCase expression statement n) := by
  refine .bind offset fun start => .bind advance fun _ => .bind hexpression fun value => .bind (expect ":") fun _ => ?_
  refine .bind (block hstatement ["CASE", "DEFAULT", "END"] n) fun body => ?_
  rw [← blockUnplaced_eq]
  exact .pure (Case.mk start (some value) body)

theorem switch (n start : Nat) : Unplaces Statement.unplaced (Reader.switch expression statement n start)
    (Reader.switch expression statement n 0) := by
  refine .bind hexpression fun condition => ?_
  refine .bind (many (valueCase hexpression hstatement n) (fun s => s.peek_unplaced "CASE") n) fun cases => ?_
  refine .bind offset fun defaultStart => .bind (expect "DEFAULT") fun _ => ?_
  refine .bind (block hstatement ["END"] n) fun body => .bind (expect "END") fun _ => ?_
  have hcases : cases.map Case.unplaced ++ [Case.mk 0 none (body.map Statement.unplaced)] =
      armsUnplaced (cases ++ [.mk defaultStart none body]) := by
    rw [armsUnplaced_eq, List.map_append, List.map_singleton, Case.unplaced, blockUnplaced_eq, Option.map_none]
  rw [hcases]
  exact .pure (Statement.switch start condition (cases ++ [.mk defaultStart none body]))

theorem conditional (n start : Nat) : Unplaces Statement.unplaced (Reader.conditional expression statement n start)
    (Reader.conditional expression statement n 0) := by
  refine .bind hexpression fun condition => .bind (expect "DO") fun _ => ?_
  refine .bind (block hstatement ["ELSE", "END"] n) fun onTrue => ?_
  refine .bind (eat "ELSE") fun found => ?_
  have hrest : ∀ onFalse : List Statement, Unplaces Statement.unplaced
      (Reader.expect "END" >>= fun _ => Pure.pure (Statement.conditional start condition onTrue onFalse))
      (Reader.expect "END" >>= fun _ => Pure.pure (Statement.conditional 0 condition.unplaced
        (onTrue.map Statement.unplaced) (onFalse.map Statement.unplaced))) := by
    intro onFalse
    rw [← blockUnplaced_eq, ← blockUnplaced_eq]
    exact .bind (expect "END") fun _ => .pure (Statement.conditional start condition onTrue onFalse)
  cases found with
  | true => exact .bind (block hstatement ["END"] n) hrest
  | false => exact hrest []

theorem loop (n start : Nat) : Unplaces Statement.unplaced (Reader.loop expression statement n start)
    (Reader.loop expression statement n 0) := by
  refine .bind hexpression fun condition => .bind (expect "DO") fun _ => ?_
  refine .bind (block hstatement ["END"] n) fun body => .bind (expect "END") fun _ => ?_
  rw [← blockUnplaced_eq]
  exact .pure (Statement.loop start condition body)

theorem statementOf (n : Nat) : Unplaces Statement.unplaced (Reader.statementOf expression statement n)
    (Reader.statementOf expression statement n) := by
  refine .bind offset fun start => ?_
  refine choice "LET" (declaration hexpression start) (choice "SWITCH" (switch hexpression hstatement n start) ?_)
  refine choice "IF" (conditional hexpression hstatement n start) ?_
  refine choice "WHILE" (loop hexpression hstatement n start) ?_
  exact choice "RETURN" (returned hexpression start) (effect hexpression start)

end

theorem statementWithin (n : Nat) :
    Unplaces Statement.unplaced (Reader.statementWithin n) (Reader.statementWithin n) := by
  induction n with
  | zero => exact unexpected _
  | succ n ih => exact statementOf (expressionWithin n) ih n

/-! ## §6 Programs -/

section

variable {expression : Reader Expr} (hexpression : Unplaces Expr.unplaced expression expression)

include hexpression

theorem listLiteral (n : Nat) :
    Unplaces Expr.unplaced (Reader.listLiteral expression n) (Reader.listLiteral expression n) := by
  have hmore : Unplaces Expr.unplaced (Reader.advance *> expression) (Reader.advance *> expression) :=
    Translates.bind (f := fun _ => expression) (g := fun _ => expression) advance fun _ => hexpression
  refine .bind offset fun start => .bind freshId fun id => .bind (expect "[") fun _ => ?_
  refine .bind hexpression fun first => .bind (many hmore (fun s => s.peek_unplaced ",") n) fun more => ?_
  refine .bind (expect "]") fun _ => ?_
  rw [← List.map_cons, ← Expr.allUnplaced_eq]
  exact .pure (Expr.list ⟨id, start⟩ (first :: more))

theorem globalBody (n : Nat) (node : Node) : Unplaces Global.unplaced (Reader.globalBody expression n node)
    (Reader.globalBody expression n node.unplaced) := by
  refine choice "LIST" ?_ (choice "VAR" ?_ ?_)
  · refine .bind identifier fun name => .bind (expect ":") fun _ => .bind identifier fun type => ?_
    refine .bind (expect "=") fun _ => .bind (listLiteral hexpression n) fun value => ?_
    exact .pure (Global.mk node name true (some type) (some value))
  · refine .bind identifier fun name => .bind typeName? fun type => .bind (initializer? hexpression) fun value => ?_
    exact .pure (Global.mk node name true type value)
  · refine .bind (expect "VAL") fun _ => .bind identifier fun name => .bind typeName? fun type => ?_
    refine .bind (expect "=") fun _ => .bind hexpression fun value => ?_
    exact .pure (Global.mk node name false type (some value))

theorem globalOf (n : Nat) :
    Unplaces Global.unplaced (Reader.globalOf expression n) (Reader.globalOf expression n) := by
  refine .bind offset fun start => .bind freshId fun id => .bind (globalBody hexpression n ⟨id, start⟩) fun g => ?_
  exact .bind (expect ";") fun _ => .pure g

end

theorem parameter : Unplaces Parameter.unplaced Reader.parameter Reader.parameter := by
  refine .bind freshId fun id => .bind offset fun start => .bind identifier fun name => ?_
  exact .bind (expect ":") fun _ => .bind identifier fun type => .pure (Parameter.mk ⟨id, start⟩ name type)

theorem functionOf {statement : Reader Statement} (hstatement : Unplaces Statement.unplaced statement statement)
    (n : Nat) : Unplaces Function.unplaced (Reader.functionOf statement n) (Reader.functionOf statement n) := by
  refine .bind offset fun start => .bind freshId fun id => .bind (expect "FUN") fun _ => ?_
  refine .bind identifier fun name => .bind (expect "(") fun _ => .bind (commaSeparated parameter ")" n) fun ps => ?_
  refine .bind typeName? fun returns => .bind (expect "DO") fun _ => .bind (block hstatement ["END"] n) fun body => ?_
  exact .bind (expect "END") fun _ => .pure (Function.mk ⟨id, start⟩ name ps returns body)

theorem programOf {global : Reader Global} {function : Reader Function}
    (hglobal : Unplaces Global.unplaced global global) (hfunction : Unplaces Function.unplaced function function)
    (n : Nat) :
    Unplaces Program.unplaced (Reader.programOf global function n) (Reader.programOf global function n) := by
  refine .bind (many hglobal (fun s => s.peekOneOf_unplaced _) n) fun globals => ?_
  refine .bind (many hfunction (fun s => s.peek_unplaced _) n) fun functions => Translates.get_bind fun s => ?_
  rw [s.current_unplaced, s.offset_unplaced, Option.isSome_map, List.isEmpty_map]
  exact .ite (unexpected _) (.ite (.throw _) (.pure (Program.mk globals functions)))

/-- The number of tokens is the same with and without offsets, and so is the bound. -/
theorem program : Unplaces Program.unplaced Reader.program Reader.program := by
  refine Translates.get_bind fun s => ?_
  have hlength : s.unplaced.rest.length = s.rest.length := List.length_map _
  rw [hlength]
  exact programOf (globalOf (expressionWithin _) _) (functionOf (statementWithin _) _) _

end Unplaces

end Reader

/-! ## §7 Whole token sequences -/

theorem parse_eq_result (ts : List Token) : parse ts = result (Reader.program (ReaderState.ofTokens ts)) := by
  unfold parse Reader.parse EStateM.run
  cases Reader.program (ReaderState.ofTokens ts) <;> rfl

/-- Tokens that agree up to offsets are read as trees that agree up to offsets, or refused with errors that do. -/
theorem parse_unplaced {ts us : List Token} (h : ts.map Token.unplaced = us.map Token.unplaced) :
    ((parse ts).map Program.unplaced).mapError GrammarError.unplaced =
      ((parse us).map Program.unplaced).mapError GrammarError.unplaced := by
  have hstart : (ReaderState.ofTokens ts).unplaced = (ReaderState.ofTokens us).unplaced := by
    unfold ReaderState.ofTokens ReaderState.unplaced
    rw [h]
  rw [parse_eq_result, parse_eq_result, ← result_relabel, ← Reader.Unplaces.program, hstart, Reader.Unplaces.program,
    result_relabel]

end BlockLang
