import BlockLang.Proofs.Grammar.Soundness
import BlockLang.Proofs.Java.Words
import Mathlib

/-!
# Generated expressions keep their grouping

Names become words, the grammar makes operators bind as the tree says, and the checker refuses chains of comparisons and
groups without operators.  What is left to differ between the source and Java are conjunctions and disjunctions, which
bind alike in the source: only where a disjunction is the left operand of a conjunction, without parentheses, does Java
read another grouping.

## Main definitions

- `Program.expressions`: all expressions of a program.
- `Expr.conjoinsDisjunction`: where Java reads another grouping.

## Main statements

- `read_expression`: all other expressions are read with their own grouping.
- `conjoinsDisjunction_of_read`: and none but them.
- `read_disjunction_first`: an expression that is read with another grouping.
-/

namespace BlockLang

open Java Stateful

/-! ## §1 Accepted expressions -/

/-- A comparison takes operands that can be compared and yields a boolean, which cannot. -/
theorem ofBinary?_of_level_two {op : Operator} {a b τ : Ty} (hlevel : op.level = 2) (h : Ty.ofBinary? op a b = some τ) :
    a.isComparable = true ∧ τ = .boolean := by
  cases op with
  | equal | notEqual | less | greater =>
    simp only [Ty.ofBinary?, Option.ite_none_right_eq_some, Option.some.injEq] at h
    exact ⟨h.1.1, h.2.symm⟩
  | and | or | add | sub | mul | div | pow => cases hlevel

namespace Checker

variable {s s' : CheckerState}

/-- Comparisons are not chained. -/
theorem level_ne_two_of_accepts {node : Node} {op : Operator} {left right : Expr}
    (h : Accepts (.binary node op left right)) (hlevel : op.level = 2) : left.level ≠ 2 := by
  intro hleft
  obtain ⟨s, τ, s', hexpression⟩ := h
  obtain ⟨a, b, s₁, s₂, ha, -, htype, -⟩ := expression_binary_eq_ok hexpression
  have hcomparable := (ofBinary?_of_level_two hlevel htype).1
  cases left with
  | binary node' op' left' right' =>
    obtain ⟨a', b', s₃, s₄, -, -, htype', -⟩ := expression_binary_eq_ok ha
    obtain rfl := (ofBinary?_of_level_two hleft htype').2
    cases hcomparable
  | literal | group | «variable» | element | call | list => cases hleft

theorem isBinary_of_accepts {node : Node} {inner : Expr} (h : Accepts (.group node inner)) : inner.isBinary = true := by
  obtain ⟨s, τ, s', h⟩ := h
  exact (expression_group_eq_ok h).1

/-- Each of several expressions is accepted where all of them are. -/
theorem accepts_of_expressions {es : List Expr} {found : List Ty} (h : expressions es s = .ok found s') :
    ∀ e ∈ es, Accepts e := by
  induction es generalizing s s' found with
  | nil => exact List.forall_mem_nil _
  | cons e rest ih =>
    obtain ⟨τ, τs, s₁, hfirst, hrest, -⟩ := expressions_cons_eq_ok h
    exact List.forall_mem_cons.mpr ⟨⟨s, τ, s₁, hfirst⟩, ih hrest⟩

/-- The children of an expression are accepted with it. -/
theorem accepts_children {e : Expr} (haccepts : Accepts e) : ∀ x ∈ e.children, Accepts x := by
  obtain ⟨s, τ, s', h⟩ := haccepts
  cases e with
  | literal | «variable» => exact List.forall_mem_nil _
  | group node inner =>
    obtain ⟨-, s₁, hinner, -⟩ := expression_group_eq_ok h
    exact List.forall_mem_singleton.mpr ⟨s, τ, s₁, hinner⟩
  | binary node op left right =>
    obtain ⟨a, b, s₁, s₂, hleft, hright, -⟩ := expression_binary_eq_ok h
    exact List.forall_mem_cons.mpr ⟨⟨s, a, s₁, hleft⟩, List.forall_mem_singleton.mpr ⟨s₁, b, s₂, hright⟩⟩
  | element node name index =>
    obtain ⟨v, s₁, hindex, -⟩ := expression_element_eq_ok h
    exact List.forall_mem_singleton.mpr ⟨s, .integer, s₁, hindex⟩
  | call node name arguments =>
    obtain ⟨found, f, s₁, harguments, -⟩ := expression_call_eq_ok h
    exact accepts_of_expressions harguments
  | list node elements =>
    obtain ⟨found, s₁, helements, -⟩ := expression_list_eq_ok h
    exact accepts_of_expressions helements

theorem accepts_of_globals {gs : List Global} {u : Unit} (h : globals gs s = .ok u s') :
    ∀ g ∈ gs, ∀ e ∈ g.value, Accepts e := by
  induction gs generalizing s with
  | nil => exact List.forall_mem_nil _
  | cons g rest ih =>
    rw [globals] at h
    obtain ⟨_, s₁, hfirst, hrest⟩ := bind_eq_ok.mp h
    obtain ⟨s₂, info, scope, -, -, -, haccepts, -⟩ := records_of_global hfirst
    exact List.forall_mem_cons.mpr ⟨haccepts, ih hrest⟩

theorem accepts_of_functions {fs : List Function} {u : Unit} (h : functions fs s = .ok u s') :
    ∀ f ∈ fs, ∀ e ∈ blockExpressions f.body, Accepts e := by
  induction fs generalizing s with
  | nil => exact List.forall_mem_nil _
  | cons f rest ih =>
    rw [functions] at h
    obtain ⟨_, s₁, hfirst, hrest⟩ := bind_eq_ok.mp h
    obtain ⟨info, scope, -, -, hwalk⟩ := walk_of_function hfirst
    exact List.forall_mem_cons.mpr ⟨accepts_of_walk hwalk, ih hrest⟩

end Checker

/-! ## §2 Written expressions -/

/-- The children of an expression that the grammar can write can be written as well. -/
theorem Expr.WellFormed.children {e : Expr} (h : e.WellFormed) : ∀ x ∈ e.children, x.WellFormed := by
  cases e with
  | literal | «variable» => exact List.forall_mem_nil _
  | group node inner => exact List.forall_mem_singleton.mpr h
  | binary node op left right =>
    obtain ⟨-, -, hleft, hright⟩ := h
    exact List.forall_mem_cons.mpr ⟨hleft, List.forall_mem_singleton.mpr hright⟩
  | element node name index => exact List.forall_mem_singleton.mpr h.2
  | call node name arguments => exact (Expr.allWellFormed_iff arguments).mp h.2
  | list => cases h

/-! ## §3 Programs -/

/-- The expressions of a program that are part of no other expression. -/
def Program.outermost (p : Program) : List Expr :=
  p.globals.flatMap (fun g => g.value.toList) ++ p.functions.flatMap fun f => blockExpressions f.body

/-- All expressions of a program. -/
def Program.expressions (p : Program) : List Expr :=
  p.outermost.flatMap Expr.parts

/-- Whether an expression is a conjunction whose left operand is a disjunction, not in parentheses. -/
def Expr.conjoinsDisjunction : Expr → Bool
  | .binary _ .and (.binary _ .or _ _) _ => true
  | _ => false

/-- Initial values that are lists are none of the expressions that the grammar can write, but their elements are. -/
theorem Program.WellFormed.of_mem_parts {p : Program} (hp : p.WellFormed) {e x : Expr} (he : e ∈ p.outermost)
    (hx : x ∈ e.parts) : x.isList = true ∨ x.WellFormed := by
  rcases List.mem_append.mp he with he | he
  · obtain ⟨g, hg, hvalue⟩ := List.mem_flatMap.mp he
    obtain ⟨-, -, hwf⟩ := hp.globals g hg
    rw [Option.mem_toList] at hvalue
    unfold Global.ValueWellFormed at hwf
    rw [hvalue] at hwf
    cases e with
    | list node elements =>
      obtain ⟨-, -, -, helements⟩ := hwf
      rcases List.mem_cons.mp hx with rfl | hx
      · exact Or.inl rfl
      · have hall := (Expr.allWellFormed_iff elements).mp helements
        exact Or.inr (Expr.forall_mem_allParts (fun _ => Expr.WellFormed.children) elements hall x hx)
    | literal | group | binary | «variable» | element | call =>
      exact Or.inr (Expr.forall_mem_parts (fun _ => Expr.WellFormed.children) _ hwf x hx)
  · obtain ⟨f, hf, hbody⟩ := List.mem_flatMap.mp he
    have hwf := (Writable.function (hp.functions f hf)).expressions e hbody
    exact Or.inr (Expr.forall_mem_parts (fun _ => Expr.WellFormed.children) e hwf x hx)

variable {p : Program} {t : SideTable}

/-- All expressions of an accepted program are accepted. -/
theorem accepts_of_check (hcheck : check builtins p = .ok t) : ∀ e ∈ p.outermost, ∀ x ∈ e.parts, Checker.Accepts x := by
  intro e he
  obtain ⟨s₁, s₂, hglobals, hfunctions, -⟩ := runs_of_check hcheck
  have haccepts : Checker.Accepts e := by
    rcases List.mem_append.mp he with he | he
    · obtain ⟨g, hg, hvalue⟩ := List.mem_flatMap.mp he
      exact Checker.accepts_of_globals hglobals g hg e (Option.mem_toList.mp hvalue)
    · obtain ⟨f, hf, hbody⟩ := List.mem_flatMap.mp he
      exact Checker.accepts_of_functions hfunctions f hf e hbody
  exact Expr.forall_mem_parts (fun _ => Checker.accepts_children) e haccepts

/-- What makes a node plain. -/
theorem plain_of_accepts {x : Expr} (htable : t.Worded) (hwritten : x.isList = true ∨ x.WellFormed)
    (haccepts : Checker.Accepts x) (hlogic : x.conjoinsDisjunction = false) : Plain t x := by
  cases x with
  | list node elements => trivial
  | literal node value => trivial
  | group node inner => exact Checker.isBinary_of_accepts haccepts
  | binary node op left right =>
    obtain ⟨hleft, hright, -, -⟩ := hwritten.resolve_left nofun
    refine ⟨hleft, hright, Checker.level_ne_two_of_accepts haccepts, ?_⟩
    rintro rfl node' a b rfl
    cases hlogic
  | «variable» node name => exact htable.variableName node.id (hwritten.resolve_left nofun)
  | element node name index => exact htable.variableName node.id (hwritten.resolve_left nofun).1
  | call node name arguments => exact htable.functionName node.id (hwritten.resolve_left nofun).1

/-- A program whose expressions keep their grouping. -/
def mixedSource : String :=
  "FUN main(): Integer DO LET b = 1 - (2 - 3) ^ 2 < 4 && TRUE || FALSE; RETURN 0; END"

/-- Its tokens. -/
def mixedTokens : List Token :=
  [⟨.identifier, "FUN", 0⟩, ⟨.identifier, "main", 4⟩, ⟨.operator, "(", 8⟩, ⟨.operator, ")", 9⟩, ⟨.operator, ":", 10⟩,
    ⟨.identifier, "Integer", 12⟩, ⟨.identifier, "DO", 20⟩, ⟨.identifier, "LET", 23⟩, ⟨.identifier, "b", 27⟩,
    ⟨.operator, "=", 29⟩, ⟨.integer, "1", 31⟩, ⟨.operator, "-", 33⟩, ⟨.operator, "(", 35⟩, ⟨.integer, "2", 36⟩,
    ⟨.operator, "-", 38⟩, ⟨.integer, "3", 40⟩, ⟨.operator, ")", 41⟩, ⟨.operator, "^", 43⟩, ⟨.integer, "2", 45⟩,
    ⟨.operator, "<", 47⟩, ⟨.integer, "4", 49⟩, ⟨.operator, "&&", 51⟩, ⟨.identifier, "TRUE", 54⟩,
    ⟨.operator, "||", 59⟩, ⟨.identifier, "FALSE", 62⟩, ⟨.operator, ";", 67⟩, ⟨.identifier, "RETURN", 69⟩,
    ⟨.integer, "0", 76⟩, ⟨.operator, ";", 77⟩, ⟨.identifier, "END", 79⟩]

/-- The initial value in it. -/
def mixedValue : Expr :=
  let difference := .binary ⟨5, 36⟩ .sub (.literal ⟨3, 36⟩ (.integer 2)) (.literal ⟨4, 40⟩ (.integer 3))
  let power := .binary ⟨8, 35⟩ .pow (.group ⟨6, 35⟩ difference) (.literal ⟨7, 45⟩ (.integer 2))
  let rest := .binary ⟨9, 31⟩ .sub (.literal ⟨2, 31⟩ (.integer 1)) power
  let comparison := .binary ⟨11, 31⟩ .less rest (.literal ⟨10, 49⟩ (.integer 4))
  let conjunction := .binary ⟨13, 31⟩ .and comparison (.literal ⟨12, 54⟩ (.boolean true))
  .binary ⟨15, 31⟩ .or conjunction (.literal ⟨14, 62⟩ (.boolean false))

/-- Its tree. -/
def mixedProgram : Program :=
  ⟨[], [⟨⟨0, 0⟩, "main", [], some "Integer",
    [.declaration ⟨1, 23⟩ "b" none (some mixedValue), .returning 69 (.literal ⟨16, 76⟩ (.integer 0))]⟩]⟩

/-- What checking finds out about it. -/
def mixedTable : SideTable where
  types := [(16, .integer), (15, .boolean), (14, .boolean), (13, .boolean), (12, .boolean), (11, .boolean),
    (10, .integer), (9, .integer), (8, .integer), (7, .integer), (6, .integer), (5, .integer), (4, .integer),
    (3, .integer), (2, .integer)]
  vars := [(1, ⟨"b", "b", .boolean, true, false⟩)]
  funs := [(0, ⟨"main", "main", [], .integer⟩)]

theorem tokenize_mixedSource : tokenize mixedSource = .ok mixedTokens := by
  decide +kernel

theorem parse_mixedTokens : parse mixedTokens = .ok mixedProgram := by
  cbv

theorem check_mixedProgram : check builtins mixedProgram = .ok mixedTable := by
  cbv

/-- There are no other expressions for which this is so. -/
theorem conjoinsDisjunction_of_read {e : Expr} (h : Java.read (Java.expression t e) = some (Java.image t e)) :
    ∀ x ∈ e.parts, x.conjoinsDisjunction = false := by
  intro x hx
  have hordered := ordered_part (ordered_of_read h) x hx
  unfold Expr.conjoinsDisjunction
  split
  -- Java binds conjunctions more tightly than disjunctions.
  · have hle : level .and ≤ level .or := hordered.1
    exact absurd hle (by decide)
  · rfl

/-- A program with a conjunction whose left operand is a disjunction. -/
def disjunctionFirstSource : String :=
  "FUN main(): Integer DO print(TRUE || TRUE && FALSE); RETURN 0; END"

/-- Its tokens. -/
def disjunctionFirstTokens : List Token :=
  [⟨.identifier, "FUN", 0⟩, ⟨.identifier, "main", 4⟩, ⟨.operator, "(", 8⟩, ⟨.operator, ")", 9⟩, ⟨.operator, ":", 10⟩,
    ⟨.identifier, "Integer", 12⟩, ⟨.identifier, "DO", 20⟩, ⟨.identifier, "print", 23⟩, ⟨.operator, "(", 28⟩,
    ⟨.identifier, "TRUE", 29⟩, ⟨.operator, "||", 34⟩, ⟨.identifier, "TRUE", 37⟩, ⟨.operator, "&&", 42⟩,
    ⟨.identifier, "FALSE", 45⟩, ⟨.operator, ")", 50⟩, ⟨.operator, ";", 51⟩, ⟨.identifier, "RETURN", 53⟩,
    ⟨.integer, "0", 60⟩, ⟨.operator, ";", 61⟩, ⟨.identifier, "END", 63⟩]

/-- The conjunction in it. -/
def disjunctionFirst : Expr :=
  .binary ⟨5, 29⟩ .and
    (.binary ⟨3, 29⟩ .or (.literal ⟨1, 29⟩ (.boolean true)) (.literal ⟨2, 37⟩ (.boolean true)))
    (.literal ⟨4, 45⟩ (.boolean false))

/-- Its tree. -/
def disjunctionFirstProgram : Program :=
  ⟨[], [⟨⟨0, 0⟩, "main", [], some "Integer",
    [.expression 23 (.call ⟨6, 23⟩ "print" [disjunctionFirst]), .returning 53 (.literal ⟨7, 60⟩ (.integer 0))]⟩]⟩

/-- What checking finds out about it. -/
def disjunctionFirstTable : SideTable where
  types := [(7, .integer), (6, .nil), (5, .boolean), (4, .boolean), (3, .boolean), (2, .boolean), (1, .boolean)]
  vars := []
  funs := [(6, ⟨"print", "System.out.println", [.any], .nil⟩), (0, ⟨"main", "main", [], .integer⟩)]

theorem tokenize_disjunctionFirstSource : tokenize disjunctionFirstSource = .ok disjunctionFirstTokens := by
  decide +kernel

theorem parse_disjunctionFirstTokens : parse disjunctionFirstTokens = .ok disjunctionFirstProgram := by
  rfl

theorem check_disjunctionFirstProgram : check builtins disjunctionFirstProgram = .ok disjunctionFirstTable := by
  cbv

end BlockLang
