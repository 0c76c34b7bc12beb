import BlockLang.Java.Program
import BlockLang.Proofs.Table.Consistency

/-!
# Names do not matter to Java

The Java text of a tree takes its names and types from the side table, and falls back on the names of the tree only
where the table has no entry. Since the table of an accepted program has all entries, the text is the same whatever
names the tree has.

## Main definitions

- `Program.rename`: a program with other names at the same nodes.
- `SideTable.Resolves`: the table has an entry for what an expression names.

## Main statement

- `side_table_exact`: the side table of an accepted program is exact and consistent, and makes the names of the
  program superfluous.
-/

namespace BlockLang

/-! ## §1 Other names -/

/-- Names for the nodes of a tree: what a node declares or stands for, and the type that is written there. -/
structure Renaming where
  name : Nat → String
  type : Nat → String

namespace Expr

mutual

/-- An expression with other names. -/
def rename (r : Renaming) : Expr → Expr
  | .literal n value => .literal n value
  | .group n inner => .group n (inner.rename r)
  | .binary n op left right => .binary n op (left.rename r) (right.rename r)
  | .variable n _ => .variable n (r.name n.id)
  | .element n _ index => .element n (r.name n.id) (index.rename r)
  | .call n _ arguments => .call n (r.name n.id) (renameAll r arguments)
  | .list n elements => .list n (renameAll r elements)

/-- Expressions with other names. -/
def renameAll (r : Renaming) : List Expr → List Expr
  | [] => []
  | e :: rest => e.rename r :: renameAll r rest

end

end Expr

mutual

/-- A statement with other names. -/
def Statement.rename (r : Renaming) : Statement → Statement
  | .expression o value => .expression o (value.rename r)
  | .declaration n _ type value =>
    .declaration n (r.name n.id) (type.map fun _ => r.type n.id) (value.map (Expr.rename r))
  | .assignment o receiver value => .assignment o (receiver.rename r) (value.rename r)
  | .conditional o condition onTrue onFalse =>
    .conditional o (condition.rename r) (renameBlock r onTrue) (renameBlock r onFalse)
  | .switch o condition cases => .switch o (condition.rename r) (renameArms r cases)
  | .loop o condition body => .loop o (condition.rename r) (renameBlock r body)
  | .returning o value => .returning o (value.rename r)

/-- Statements with other names. -/
def renameBlock (r : Renaming) : List Statement → List Statement
  | [] => []
  | first :: rest => first.rename r :: renameBlock r rest

/-- An arm of a switch with other names. -/
def Case.rename (r : Renaming) : Case → Case
  | .mk o value body => .mk o (value.map (Expr.rename r)) (renameBlock r body)

/-- The arms of a switch with other names. -/
def renameArms (r : Renaming) : List Case → List Case
  | [] => []
  | arm :: rest => arm.rename r :: renameArms r rest

end

/-- A parameter with other names. -/
def Parameter.rename (r : Renaming) (p : Parameter) : Parameter :=
  { p with name := r.name p.node.id, type := r.type p.node.id }

/-- A function with other names. -/
def Function.rename (r : Renaming) (f : Function) : Function where
  node := f.node
  name := r.name f.node.id
  parameters := f.parameters.map (Parameter.rename r)
  returns := f.returns.map fun _ => r.type f.node.id
  body := renameBlock r f.body

/-- A global with other names. -/
def Global.rename (r : Renaming) (g : Global) : Global where
  node := g.node
  name := r.name g.node.id
  mutable := g.mutable
  type := g.type.map fun _ => r.type g.node.id
  value := g.value.map (Expr.rename r)

/-- A program with other names at the same nodes. -/
def Program.rename (r : Renaming) (p : Program) : Program :=
  ⟨p.globals.map (Global.rename r), p.functions.map (Function.rename r)⟩

theorem Expr.isList_rename (r : Renaming) (e : Expr) : (e.rename r).isList = e.isList := by
  cases e <;> rfl

theorem Global.isList_rename (r : Renaming) (g : Global) : (g.rename r).isList = g.isList := by
  unfold Global.isList Global.rename
  cases g.value with
  | none => rfl
  | some e => exact e.isList_rename r

theorem isEmpty_renameBlock (r : Renaming) (body : List Statement) : (renameBlock r body).isEmpty = body.isEmpty := by
  cases body <;> rfl

/-! ## §2 Expressions -/

/-- What an expression names has an entry. -/
structure SideTable.Resolves (t : SideTable) (e : Expr) : Prop where
  access : e.isAccess = true → (t.findVariable? e.id).isSome
  call : e.isCall = true → (t.findFunction? e.id).isSome

namespace Java

variable {t : SideTable} (r : Renaming)

/-- With an entry, the name in the tree is not used. -/
theorem variableName_of_isSome {id : Nat} (h : (t.findVariable? id).isSome) (name name' : String) :
    variableName t id name = variableName t id name' := by
  obtain ⟨v, hv⟩ := Option.isSome_iff_exists.mp h
  simp [variableName, hv]

theorem functionName_of_isSome {id : Nat} (h : (t.findFunction? id).isSome) (name name' : String) :
    functionName t id name = functionName t id name' := by
  obtain ⟨f, hf⟩ := Option.isSome_iff_exists.mp h
  simp [functionName, hf]

mutual

theorem expression_rename : ∀ e : Expr, (∀ x ∈ e.parts, t.Resolves x) → expression t (e.rename r) = expression t e
  | .literal _ _, _ => rfl
  | .group _ inner, h => by
    obtain ⟨-, hinner⟩ := List.forall_mem_cons.mp h
    simp only [Expr.rename, expression, expression_rename inner hinner]
  | .binary _ op left right, h => by
    obtain ⟨-, hoperands⟩ := List.forall_mem_cons.mp h
    obtain ⟨hleft, hright⟩ := List.forall_mem_append.mp hoperands
    simp only [Expr.rename, expression, expression_rename left hleft, expression_rename right hright]
  | .variable _ _, h => variableName_of_isSome ((List.forall_mem_singleton.mp h).access rfl) _ _
  | .element n name index, h => by
    obtain ⟨hnode, hindex⟩ := List.forall_mem_cons.mp h
    have hname := variableName_of_isSome (hnode.access rfl) (r.name n.id) name
    simp only [Expr.rename, expression, expression_rename index hindex]
    exact congrArg (· ++ "[" ++ expression t index ++ "]") hname
  | .call n name arguments, h => by
    obtain ⟨hnode, harguments⟩ := List.forall_mem_cons.mp h
    have hname := functionName_of_isSome (hnode.call rfl) (r.name n.id) name
    simp only [Expr.rename, expression, expressions_rename arguments harguments]
    exact congrArg (· ++ "(" ++ commaSeparated (expressions t arguments) ++ ")") hname
  | .list _ elements, h => by
    obtain ⟨-, helements⟩ := List.forall_mem_cons.mp h
    simp only [Expr.rename, expression, expressions_rename elements helements]

theorem expressions_rename : ∀ es : List Expr, (∀ x ∈ Expr.allParts es, t.Resolves x) →
    expressions t (Expr.renameAll r es) = expressions t es
  | [], _ => rfl
  | e :: rest, h => by
    obtain ⟨he, hrest⟩ := List.forall_mem_append.mp h
    simp only [Expr.renameAll, expressions, expression_rename e he, expressions_rename rest hrest]

end

theorem initializer_rename {value : Option Expr} (h : ∀ e ∈ value, ∀ x ∈ e.parts, t.Resolves x) :
    initializer t (value.map (Expr.rename r)) = initializer t value := by
  cases value with
  | none => rfl
  | some e => simp only [Option.map_some, initializer, expression_rename r e (h e rfl)]

/-! ## §3 Statements -/

theorem typedName_of_isSome {id : Nat} (h : (t.findVariable? id).isSome) (name name' : String) :
    typedName t id name = typedName t id name' := by
  obtain ⟨v, hv⟩ := Option.isSome_iff_exists.mp h
  simp [typedName, hv]

/-- The table has entries for all that is named in some expressions, and for some local declarations. -/
structure Covers (t : SideTable) (es : List Expr) (locals : Names) : Prop where
  expressions : ∀ e ∈ es, ∀ x ∈ e.parts, t.Resolves x
  locals : ∀ d ∈ locals, (t.findVariable? d.2).isSome

namespace Covers

variable {es fs : List Expr} {locals more : Names}

theorem append (h : Covers t (es ++ fs) (locals ++ more)) : Covers t es locals ∧ Covers t fs more := by
  obtain ⟨hes, hfs⟩ := List.forall_mem_append.mp h.expressions
  obtain ⟨hlocals, hmore⟩ := List.forall_mem_append.mp h.locals
  exact ⟨⟨hes, hlocals⟩, hfs, hmore⟩

theorem cons {e : Expr} (h : Covers t (e :: es) locals) : (∀ x ∈ e.parts, t.Resolves x) ∧ Covers t es locals := by
  obtain ⟨he, hes⟩ := List.forall_mem_cons.mp h.expressions
  exact ⟨he, hes, h.locals⟩

end Covers

mutual

theorem statement_rename (indent : Nat) : ∀ st : Statement, Covers t st.expressions st.locals →
    statement t indent (st.rename r) = statement t indent st
  | .expression _ e, h | .returning _ e, h => by
    simp only [Statement.rename, statement, expression_rename r e h.cons.1]
  | .declaration n name _ value, h => by
    have hname := typedName_of_isSome (h.locals (name, n.id) List.mem_cons_self) (r.name n.id) name
    have hvalue : ∀ e ∈ value, ∀ x ∈ e.parts, t.Resolves x := fun e he => h.expressions e (Option.mem_toList.mpr he)
    simp only [Statement.rename, statement, initializer_rename r hvalue]
    rw [hname]
  | .assignment _ receiver value, h => by
    obtain ⟨hreceiver, hrest⟩ := h.cons
    simp only [Statement.rename, statement, expression_rename r receiver hreceiver,
      expression_rename r value hrest.cons.1]
  | .conditional _ condition onTrue onFalse, h => by
    obtain ⟨hcondition, hrest⟩ := h.cons
    obtain ⟨htrue, hfalse⟩ := hrest.append
    simp only [Statement.rename, statement, expression_rename r condition hcondition, isEmpty_renameBlock,
      statements_rename (indent + 1) onTrue htrue, statements_rename (indent + 1) onFalse hfalse]
  | .switch _ condition cases, h => by
    obtain ⟨hcondition, hrest⟩ := h.cons
    simp only [Statement.rename, statement, expression_rename r condition hcondition,
      arms_rename (indent + 1) cases hrest]
  | .loop _ condition body, h => by
    obtain ⟨hcondition, hrest⟩ := h.cons
    simp only [Statement.rename, statement, expression_rename r condition hcondition,
      statements_rename (indent + 1) body hrest]

theorem statements_rename (indent : Nat) : ∀ body : List Statement,
    Covers t (blockExpressions body) (blockLocals body) →
    statements t indent (renameBlock r body) = statements t indent body
  | [], _ => rfl
  | first :: rest, h => by
    obtain ⟨hfirst, hrest⟩ := h.append
    simp only [renameBlock, statements, statement_rename indent first hfirst, statements_rename indent rest hrest]

theorem arm_rename (indent : Nat) : ∀ a : Case, Covers t a.expressions a.locals →
    arm t indent (a.rename r) = arm t indent a
  | .mk _ none body, h => by
    have hbody : Covers t (blockExpressions body) (blockLocals body) := h
    simp only [Case.rename, Option.map_none, arm, statements_rename (indent + 1) body hbody]
  | .mk _ (some value) body, h => by
    have hall : Covers t (value :: blockExpressions body) (blockLocals body) := h
    obtain ⟨hvalue, hbody⟩ := hall.cons
    simp only [Case.rename, Option.map_some, arm, expression_rename r value hvalue,
      statements_rename (indent + 1) body hbody]

theorem arms_rename (indent : Nat) : ∀ as : List Case, Covers t (armExpressions as) (armLocals as) →
    arms t indent (renameArms r as) = arms t indent as
  | [], _ => rfl
  | first :: rest, h => by
    obtain ⟨hfirst, hrest⟩ := h.append
    simp only [renameArms, arms, arm_rename indent first hfirst, arms_rename indent rest hrest]

end

/-! ## §4 Programs -/

theorem global_rename {g : Global} (hnode : (t.findVariable? g.node.id).isSome)
    (hvalue : ∀ e ∈ g.value, ∀ x ∈ e.parts, t.Resolves x) : global t (g.rename r) = global t g := by
  obtain ⟨v, hv⟩ := Option.isSome_iff_exists.mp hnode
  have hinitial : initializer t (g.rename r).value = initializer t g.value := initializer_rename r hvalue
  have hid : (g.rename r).node = g.node := rfl
  have hmutable : (g.rename r).mutable = g.mutable := rfl
  simp only [global, hid, hmutable, hv, Global.isList_rename, hinitial]

theorem parameter_rename {p : Parameter} (h : (t.findVariable? p.node.id).isSome) :
    parameter t (p.rename r) = parameter t p := by
  obtain ⟨v, hv⟩ := Option.isSome_iff_exists.mp h
  have hid : (p.rename r).node = p.node := rfl
  simp only [parameter, hid, hv]

theorem function_rename {f : Function} (hnode : (t.findFunction? f.node.id).isSome)
    (hbody : Covers t (blockExpressions f.body) f.locals) : function t (f.rename r) = function t f := by
  obtain ⟨info, hinfo⟩ := Option.isSome_iff_exists.mp hnode
  obtain ⟨hparameters, hlocals⟩ := List.forall_mem_append.mp hbody.locals
  have hlist : f.parameters.map (parameter t ∘ Parameter.rename r) = f.parameters.map (parameter t) := by
    refine List.map_congr_left fun p hp => parameter_rename r ?_
    exact hparameters (p.name, p.node.id) (List.mem_map.mpr ⟨p, hp, rfl⟩)
  have hstatements := statements_rename r 2 f.body ⟨hbody.expressions, hlocals⟩
  simp only [function, Function.rename, hinfo, List.map_map, hlist, hstatements]

/-- With all entries in the table, the names in a program are not used. -/
theorem program_rename {p : Program} (hglobals : ∀ g ∈ p.globals, (t.findVariable? g.node.id).isSome ∧
      ∀ e ∈ g.value, ∀ x ∈ e.parts, t.Resolves x)
    (hfunctions : ∀ f ∈ p.functions, (t.findFunction? f.node.id).isSome ∧
      Covers t (blockExpressions f.body) f.locals) : program t (p.rename r) = program t p := by
  have hglobal : globals t (p.globals.map (Global.rename r)) = globals t p.globals := by
    cases hp : p.globals with
    | nil => rfl
    | cons g rest =>
      rw [hp] at hglobals
      have hlines : ((g :: rest).map (Global.rename r)).map (fun g => Line.mk 1 (global t g)) =
          (g :: rest).map fun g => Line.mk 1 (global t g) := by
        rw [List.map_map]
        exact List.map_congr_left fun g hg => congrArg (Line.mk 1) (global_rename r (hglobals g hg).1 (hglobals g hg).2)
      exact congrArg (· ++ [Line.blank]) hlines
  have hfunction : (p.functions.map (Function.rename r)).flatMap (fun f => .blank :: function t f) =
      p.functions.flatMap fun f => .blank :: function t f := by
    rw [List.flatMap_map]
    refine List.flatMap_congr fun f hf => ?_
    rw [function_rename r (hfunctions f hf).1 (hfunctions f hf).2]
  simp only [program, programLines, Program.rename, hglobal, hfunction]

end Java

/-! ## §5 Accepted programs -/

/-- A side table has exactly the entries that the nodes of a program call for, and they obey the typing rules. -/
structure SideTable.Describes (t : SideTable) (p : Program) : Prop where
  isSome_type_iff (id : Nat) : (t.type? id).isSome ↔ id ∈ p.expressions.map Expr.id
  isSome_variable_iff (id : Nat) : (t.findVariable? id).isSome ↔ id ∈ p.variableIds
  isSome_function_iff (id : Nat) : (t.findFunction? id).isSome ↔ id ∈ p.functionIds
  obeys : ∀ e ∈ p.expressions, t.Obeys e
  obeysGlobal : ∀ g ∈ p.globals, t.ObeysGlobal g

namespace SideTable.Describes

variable {t : SideTable} {p : Program}

theorem resolves (h : t.Describes p) : ∀ e ∈ p.expressions, t.Resolves e := by
  refine fun e he => ⟨fun haccess => ?_, fun hcall => ?_⟩
  · refine (h.isSome_variable_iff e.id).mpr (List.mem_append_right _ ?_)
    exact List.mem_map_of_mem (List.mem_filter.mpr ⟨he, haccess⟩)
  · refine (h.isSome_function_iff e.id).mpr (List.mem_append_right _ ?_)
    exact List.mem_map_of_mem (List.mem_filter.mpr ⟨he, hcall⟩)

theorem globals (h : t.Describes p) : ∀ g ∈ p.globals, (t.findVariable? g.node.id).isSome ∧
    ∀ e ∈ g.value, ∀ x ∈ e.parts, t.Resolves x := by
  refine fun g hg => ⟨?_, fun e he x hx => h.resolves x ?_⟩
  · refine (h.isSome_variable_iff _).mpr (List.mem_append_left _ (List.mem_append_left _ ?_))
    exact List.mem_map_of_mem hg
  · have houter : e ∈ p.outermost :=
      List.mem_append_left _ (List.mem_flatMap.mpr ⟨g, hg, Option.mem_toList.mpr he⟩)
    exact List.mem_flatMap.mpr ⟨e, houter, hx⟩

theorem functions (h : t.Describes p) : ∀ f ∈ p.functions, (t.findFunction? f.node.id).isSome ∧
    Java.Covers t (blockExpressions f.body) f.locals := by
  refine fun f hf => ⟨?_, fun e he x hx => h.resolves x ?_, fun d hd => ?_⟩
  · exact (h.isSome_function_iff _).mpr (List.mem_append_left _ (List.mem_map_of_mem hf))
  · have houter : e ∈ p.outermost := List.mem_append_right _ (List.mem_flatMap.mpr ⟨f, hf, he⟩)
    exact List.mem_flatMap.mpr ⟨e, houter, hx⟩
  · refine (h.isSome_variable_iff _).mpr (List.mem_append_left _ (List.mem_append_right _ ?_))
    exact List.mem_flatMap.mpr ⟨f, hf, List.mem_map_of_mem hd⟩

end SideTable.Describes

/-- **The side table is total, exact and consistent.** Whatever the builtins are, the table of a program that is read
from tokens and accepted has a type for its expressions and for nothing else, a variable for its globals, parameters,
local declarations and accesses and for nothing else, and a function for its functions and calls and for nothing else;
the entries obey the typing rules at every node; and the Java text does not depend on the names in the tree. -/
theorem side_table_exact {tokens : List Token} {bs : List FunctionInfo} {p : Program} {t : SideTable}
    (hparse : parse tokens = .ok p) (hcheck : check bs p = .ok t) :
    t.Describes p ∧ ∀ r : Renaming, Java.program t (p.rename r) = Java.program t p := by
  have hadds := adds_of_check hcheck
  obtain ⟨hobeys, hglobals⟩ := obeys_of_check hcheck (nodup_ids_of_parse hparse)
  have hdescribes : t.Describes p := {
    isSome_type_iff := hadds.types.isSome_lookup_iff
    isSome_variable_iff := hadds.vars.isSome_lookup_iff
    isSome_function_iff := hadds.funs.isSome_lookup_iff
    obeys := hobeys
    obeysGlobal := hglobals }
  exact ⟨hdescribes, fun r => Java.program_rename r hdescribes.globals hdescribes.functions⟩

/-- The tokens of `LIST xs: Integer = [1, 2]; FUN main(): Integer DO LET ys = xs; RETURN xs[0]; END`. -/
def listTokens : List Token :=
  [⟨.identifier, "LIST", 0⟩, ⟨.identifier, "xs", 5⟩, ⟨.operator, ":", 7⟩, ⟨.identifier, "Integer", 9⟩,
    ⟨.operator, "=", 17⟩, ⟨.operator, "[", 19⟩, ⟨.integer, "1", 20⟩, ⟨.operator, ",", 21⟩, ⟨.integer, "2", 23⟩,
    ⟨.operator, "]", 24⟩, ⟨.operator, ";", 25⟩, ⟨.identifier, "FUN", 27⟩, ⟨.identifier, "main", 31⟩,
    ⟨.operator, "(", 35⟩, ⟨.operator, ")", 36⟩, ⟨.operator, ":", 37⟩, ⟨.identifier, "Integer", 39⟩,
    ⟨.identifier, "DO", 47⟩, ⟨.identifier, "LET", 50⟩, ⟨.identifier, "ys", 54⟩, ⟨.operator, "=", 57⟩,
    ⟨.identifier, "xs", 59⟩, ⟨.operator, ";", 61⟩, ⟨.identifier, "RETURN", 63⟩, ⟨.identifier, "xs", 70⟩,
    ⟨.operator, "[", 72⟩, ⟨.integer, "0", 73⟩, ⟨.operator, "]", 74⟩, ⟨.operator, ";", 75⟩, ⟨.identifier, "END", 77⟩]

/-- Its tree. -/
def listProgram : Program where
  globals := [⟨⟨0, 0⟩, "xs", true, some "Integer",
    some (.list ⟨1, 19⟩ [.literal ⟨2, 20⟩ (.integer 1), .literal ⟨3, 23⟩ (.integer 2)])⟩]
  functions := [⟨⟨4, 27⟩, "main", [], some "Integer",
    [.declaration ⟨5, 50⟩ "ys" none (some (.variable ⟨6, 59⟩ "xs")),
      .returning 63 (.element ⟨8, 70⟩ "xs" (.literal ⟨7, 73⟩ (.integer 0)))]⟩]

/-- What checking finds out about it. -/
def listTable : SideTable where
  types := [(8, .integer), (7, .integer), (6, .any), (1, .integer), (3, .integer), (2, .integer)]
  vars := [(8, ⟨"xs", "xs", .integer, true, true⟩), (5, ⟨"ys", "ys", .integer, true, true⟩),
    (6, ⟨"xs", "xs", .integer, true, true⟩), (0, ⟨"xs", "xs", .integer, true, true⟩)]
  funs := [(4, ⟨"main", "main", [], .integer⟩)]

/-- The naming of a list, an element of it and the list that is written there have types of their own, and the text of
the program is the same if all its names are. -/
theorem side_table_exact_list : parse listTokens = .ok listProgram ∧ check builtins listProgram = .ok listTable ∧
    listTable.Describes listProgram ∧
    Java.program listTable (listProgram.rename ⟨fun _ => "x", fun _ => "T"⟩) = Java.program listTable listProgram := by
  have hparse : parse listTokens = .ok listProgram := by
    rfl
  have hcheck : check builtins listProgram = .ok listTable := by
    cbv
  obtain ⟨hdescribes, hrename⟩ := side_table_exact hparse hcheck
  exact ⟨hparse, hcheck, hdescribes, hrename _⟩

end BlockLang
