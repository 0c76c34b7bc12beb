import BlockLang.Proofs.Grammar.NodeTree
import BlockLang.Proofs.Grammar.Soundness

/-!
# The numbering of programs

Reading hands out ids from one counter, so the ids of a program are the numbers from zero on.  Globals, functions,
parameters, declarations and lists get theirs before what is below them, other expressions after; and what is written
further left gets its id first.

## Main definitions

- `Program.trees`: the nodes of a program, each with the place of the token list that it is written from.
- `NodeTree.Placed`: trees that lie between two places, bear given ids and stand where they say.
- `Numbered`: how the nodes of a program are numbered.

## Main statement

- `numbered_of_parse`
-/

namespace BlockLang

open BlockLang.Symbol NodeTree

/-! ## §1 The nodes of a program -/

/-- The node of an expression that is written from a place on. -/
def NodeTree.ofExpr (e : Expr) (start : Nat) (below : List NodeTree) : NodeTree :=
  .mk e.node (if e.isList then .list else .expression) start (start + e.symbols.length) below

namespace Expr

mutual

/-- The nodes of an expression that is written from a place on. -/
def tree (start : Nat) : Expr → NodeTree
  | .literal n value => .ofExpr (.literal n value) start []
  | .group n inner => .ofExpr (.group n inner) start [inner.tree (start + 1)]
  | .binary n op left right =>
    .ofExpr (.binary n op left right) start [left.tree start, right.tree (start + (left.symbols.length + 1))]
  | .variable n x => .ofExpr (.variable n x) start []
  | .element n x index => .ofExpr (.element n x index) start [index.tree (start + 2)]
  | .call n x arguments => .ofExpr (.call n x arguments) start (allTrees (start + 2) arguments)
  | .list n elements => .ofExpr (.list n elements) start (allTrees (start + 1) elements)

/-- The nodes of expressions with a comma between them. -/
def allTrees (start : Nat) : List Expr → List NodeTree
  | [] => []
  | e :: rest => e.tree start :: allTrees (start + (e.symbols.length + 1)) rest

end

/-- The nodes of an initial value, which stands after an equals sign. -/
def optionTrees (start : Nat) : Option Expr → List NodeTree
  | none => []
  | some e => [e.tree (start + 1)]

end Expr

mutual

/-- The nodes of a statement that is written from a place on; only a declaration is a node itself. -/
def Statement.trees (start : Nat) : Statement → List NodeTree
  | .expression _ value => [value.tree start]
  | .declaration n x type value =>
    [.mk n .declaration start (start + (Statement.declaration n x type value).symbols.length)
      (Expr.optionTrees (start + (2 + (typeSymbols type).length)) value)]
  | .assignment _ receiver value => [receiver.tree start, value.tree (start + (receiver.symbols.length + 1))]
  | .conditional _ condition onTrue onFalse =>
    condition.tree (start + 1) :: blockTrees (start + (condition.symbols.length + 2)) onTrue ++
      blockTrees (start + (condition.symbols.length + (blockSymbols onTrue).length + 3)) onFalse
  | .switch _ condition cases =>
    condition.tree (start + 1) :: armTrees (start + (condition.symbols.length + 1)) cases
  | .loop _ condition body =>
    condition.tree (start + 1) :: blockTrees (start + (condition.symbols.length + 2)) body
  | .returning _ value => [value.tree (start + 1)]

/-- The nodes of the statements of a block. -/
def blockTrees (start : Nat) : List Statement → List NodeTree
  | [] => []
  | first :: rest => first.trees start ++ blockTrees (start + first.symbols.length) rest

/-- The nodes of an arm of a switch. -/
def Case.trees (start : Nat) : Case → List NodeTree
  | .mk _ none body => blockTrees (start + 1) body
  | .mk _ (some value) body => value.tree (start + 1) :: blockTrees (start + (value.symbols.length + 2)) body

/-- The nodes of the arms of a switch. -/
def armTrees (start : Nat) : List Case → List NodeTree
  | [] => []
  | arm :: rest => arm.trees start ++ armTrees (start + arm.symbols.length) rest

end

/-- The node of a parameter. -/
def Parameter.tree (start : Nat) (p : Parameter) : NodeTree :=
  .mk p.node .parameter start (start + p.symbols.length) []

/-- The nodes of parameters with a comma between them. -/
def parameterTrees (start : Nat) : List Parameter → List NodeTree
  | [] => []
  | p :: rest => p.tree start :: parameterTrees (start + (p.symbols.length + 1)) rest

/-- The nodes of a function. -/
def Function.tree (start : Nat) (f : Function) : NodeTree :=
  .mk f.node .function start (start + f.symbols.length)
    (parameterTrees (start + 3) f.parameters ++ blockTrees
      (start + (5 + (commas (f.parameters.map Parameter.symbols)).length + (typeSymbols f.returns).length)) f.body)

/-- The nodes of a global. -/
def Global.tree (start : Nat) (g : Global) : NodeTree :=
  .mk g.node .global start (start + g.symbols.length)
    (Expr.optionTrees (start + (2 + (typeSymbols g.type).length)) g.value)

/-- The nodes of phrases one after the other, each with its written form. -/
def rowTrees {α : Type} (symbols : α → List Symbol) (tree : Nat → α → NodeTree) (start : Nat) : List α → List NodeTree
  | [] => []
  | x :: rest => tree start x :: rowTrees symbols tree (start + (symbols x).length) rest

/-- The nodes of a program. -/
def Program.trees (p : Program) : List NodeTree :=
  rowTrees Global.symbols Global.tree 0 p.globals ++
    rowTrees Function.symbols Function.tree (p.globals.flatMap Global.symbols).length p.functions

/-! ## §2 Where nodes stand -/

/-- Trees lie between two places and bear given ids in the order in which they are handed out.  If the offsets of the
tree are as they should be, the token at the place where a node begins has the offset that the node bears. -/
structure NodeTree.Placed (ts : List Token) (trees : List NodeTree) (start stop : Nat) (ids : List Nat)
    (anchored : Prop) : Prop where
  laid : ForestLaid start stop trees
  ids : forestIds trees = ids
  starts : anchored → ∀ x ∈ forestNodes trees, StartsAt x.node.offset (ts.drop x.start)

namespace NodeTree.Placed

variable {ts : List Token} {trees more : List NodeTree} {start stop start' stop' : Nat} {is js : List Nat} {A B : Prop}

theorem nil (h : start ≤ stop) : Placed ts [] start stop [] A :=
  ⟨h, rfl, fun _ _ hx => absurd hx List.not_mem_nil⟩

theorem mono (h : Placed ts trees start stop is A) (hstart : start' ≤ start) (hstop : stop ≤ stop') (hA : B → A) :
    Placed ts trees start' stop' is B :=
  ⟨h.laid.mono hstart hstop, h.ids, fun hB => h.starts (hA hB)⟩

theorem append (h : Placed ts trees start stop is A) (h' : Placed ts more start' stop' js B) (hle : stop ≤ start') :
    Placed ts (trees ++ more) start stop' (is ++ js) (A ∧ B) := by
  refine ⟨h.laid.append (h'.laid.mono hle le_rfl), ?_, fun hAB x hx => ?_⟩
  · rw [forestIds_append, h.ids, h'.ids]
  · rw [forestNodes_append, List.mem_append] at hx
    exact hx.elim (h.starts hAB.1 x) (h'.starts hAB.2 x)

/-- A node over nodes that lie within it. -/
theorem node {n : Node} {k : NodeKind} (h : Placed ts trees start' stop' is A) (hstart : start ≤ start')
    (hstop : stop' ≤ stop) (hlt : start < stop) :
    Placed ts [.mk n k start stop trees] start stop (if k.first then n.id :: is else is ++ [n.id])
      (StartsAt n.offset (ts.drop start) ∧ A) := by
  refine ⟨⟨le_rfl, ⟨hlt, h.laid.mono hstart hstop⟩, le_rfl⟩, ?_, fun hA x hx => ?_⟩
  · rw [forestIds, forestIds, List.append_nil, NodeTree.ids, h.ids]
  · rw [forestNodes, forestNodes, List.append_nil, nodes] at hx
    rcases List.mem_cons.mp hx with rfl | hx
    · exact hA.1
    · exact h.starts hA.2 x hx

/-- The node of an expression over the nodes of its parts. -/
theorem ofExpr {e : Expr} (h : Placed ts trees start' stop' is A) (hstart : start ≤ start')
    (hstop : stop' ≤ start + e.symbols.length) (hlt : start < start + e.symbols.length)
    (hA : B → StartsAt e.offset (ts.drop start) ∧ A) :
    Placed ts [.ofExpr e start trees] start (start + e.symbols.length)
      (if e.isList then e.id :: is else is ++ [e.id]) B := by
  have hnode := h.node (n := e.node) (k := if e.isList then .list else .expression) hstart hstop hlt
  have hnode := hnode.mono le_rfl le_rfl hA
  unfold NodeTree.ofExpr
  cases he : e.isList <;> rw [he] at hnode <;> exact hnode

end NodeTree.Placed

/-- Items that have a comma each take at most one place more than they do between commas. -/
theorem length_flatMap_le_length_commas (items : List (List Symbol)) :
    (items.flatMap (mark "," :: ·)).length ≤ (commas items).length + 1 := by
  cases items with
  | nil => exact Nat.zero_le _
  | cons first rest =>
    rw [commas, List.flatMap_cons, List.length_append, List.length_append, List.length_cons]
    omega

section

variable (ts : List Token)

/-! ## §3 Expressions and statements -/

mutual

theorem Expr.placed : ∀ (e : Expr) (start : Nat),
    Placed ts [e.tree start] start (start + e.symbols.length) e.ids (e.Anchored (ts.drop start))
  | .literal n value, start => by
    have hlength : (Expr.literal n value).symbols.length = 1 := rfl
    have hnone : Placed ts [] start start [] True := .nil le_rfl
    exact hnone.ofExpr le_rfl (by omega) (by omega) fun h => ⟨h, trivial⟩
  | .variable n x, start => by
    have hlength : (Expr.variable n x).symbols.length = 1 := rfl
    have hnone : Placed ts [] start start [] True := .nil le_rfl
    exact hnone.ofExpr le_rfl (by omega) (by omega) fun h => ⟨h, trivial⟩
  | .group n inner, start => by
    have hlength : (Expr.group n inner).symbols.length = inner.symbols.length + 2 := by simp [Expr.symbols]
    refine (inner.placed (start + 1)).ofExpr (by omega) (by omega) (by omega) fun h => ⟨h.1, ?_⟩
    simpa only [List.drop_drop] using h.2
  | .binary n op left right, start => by
    have hlength : (Expr.binary n op left right).symbols.length = left.symbols.length + right.symbols.length + 1 := by
      simp [Expr.symbols]
      omega
    have hright := right.placed (start + (left.symbols.length + 1))
    have hoperands := (left.placed start).append hright (by omega)
    refine hoperands.ofExpr (by omega) (by omega) (by omega) fun h => ⟨h.1, h.2.1, ?_⟩
    simpa only [List.drop_drop] using h.2.2
  | .element n x index, start => by
    have hlength : (Expr.element n x index).symbols.length = index.symbols.length + 3 := by simp [Expr.symbols]
    refine (index.placed (start + 2)).ofExpr (by omega) (by omega) (by omega) fun h => ⟨h.1, ?_⟩
    simpa only [List.drop_drop] using h.2
  | .call n x arguments, start => by
    have hcommas := length_flatMap_le_length_commas (Expr.allSymbols arguments)
    have hlength : (Expr.call n x arguments).symbols.length = (commas (Expr.allSymbols arguments)).length + 3 := by
      simp [Expr.symbols]
    refine (Expr.placed_all arguments (start + 2)).ofExpr (by omega) (by omega) (by omega) fun h => ⟨h.1, ?_⟩
    simpa only [List.drop_drop] using h.2
  | .list n elements, start => by
    have hcommas := length_flatMap_le_length_commas (Expr.allSymbols elements)
    have hlength : (Expr.list n elements).symbols.length = (commas (Expr.allSymbols elements)).length + 2 := by
      simp [Expr.symbols]
    refine (Expr.placed_all elements (start + 1)).ofExpr (by omega) (by omega) (by omega) fun h => ⟨h.1, ?_⟩
    simpa only [List.drop_drop] using h.2

theorem Expr.placed_all : ∀ (es : List Expr) (start : Nat),
    Placed ts (Expr.allTrees start es) start (start + ((Expr.allSymbols es).flatMap (mark "," :: ·)).length)
      (Expr.allIds es) (Expr.AllAnchored es (ts.drop start))
  | [], start => .nil (by omega)
  | e :: rest, start => by
    have hrest := Expr.placed_all rest (start + (e.symbols.length + 1))
    refine ((e.placed start).append hrest (by omega)).mono le_rfl ?_ fun h => ⟨h.1, ?_⟩
    · simp only [Expr.allSymbols, List.flatMap_cons, List.length_append, List.length_cons]
      omega
    · simpa only [List.drop_drop] using h.2

end

theorem placed_option (value : Option Expr) (start : Nat) :
    Placed ts (Expr.optionTrees start value) start (start + (valueSymbols value).length) (Expr.optionIds value)
      (Expr.OptionAnchored value (ts.drop start)) := by
  cases value with
  | none => exact .nil (by omega)
  | some e =>
    have hlength : (valueSymbols (some e)).length = e.symbols.length + 1 := rfl
    refine (e.placed ts (start + 1)).mono (by omega) (by omega) fun h => ?_
    simpa only [Expr.OptionAnchored, List.drop_drop] using h

mutual

theorem Statement.placed : ∀ (s : Statement) (start : Nat),
    Placed ts (s.trees start) start (start + s.symbols.length) s.ids (s.Anchored (ts.drop start))
  | .expression o value, start => by
    have hlength : (Statement.expression o value).symbols.length = value.symbols.length + 1 := by
      simp [Statement.symbols]
    exact (value.placed ts start).mono le_rfl (by omega) fun h => h.2
  | .declaration n x type value, start => by
    have hlength : (Statement.declaration n x type value).symbols.length =
        (typeSymbols type).length + (valueSymbols value).length + 3 := by
      simp [Statement.symbols]
      omega
    have hvalue := placed_option ts value (start + (2 + (typeSymbols type).length))
    refine (hvalue.node (by omega) (by omega) (by omega)).mono le_rfl le_rfl fun h => ⟨h.1, ?_⟩
    simpa only [List.drop_drop] using h.2
  | .assignment o receiver value, start => by
    have hlength : (Statement.assignment o receiver value).symbols.length =
        receiver.symbols.length + value.symbols.length + 2 := by
      simp [Statement.symbols]
      omega
    have hvalue := value.placed ts (start + (receiver.symbols.length + 1))
    refine ((receiver.placed ts start).append hvalue (by omega)).mono le_rfl (by omega) fun h => ⟨h.2.1, ?_⟩
    simpa only [List.drop_drop] using h.2.2
  | .conditional o condition onTrue onFalse, start => by
    -- An absent branch has no `ELSE` before it, so the length is only bounded.
    have hlength : condition.symbols.length + (blockSymbols onTrue).length + (blockSymbols onFalse).length + 3 ≤
        (Statement.conditional o condition onTrue onFalse).symbols.length := by
      simp only [Statement.symbols]
      cases onFalse <;> simp [blockSymbols] <;> omega
    have hcondition := condition.placed ts (start + 1)
    have htrue := placed_block onTrue (start + (condition.symbols.length + 2))
    have hfalse := placed_block onFalse (start + (condition.symbols.length + (blockSymbols onTrue).length + 3))
    have hbranches := (hcondition.append htrue (by omega)).append hfalse (by omega)
    refine hbranches.mono (by omega) (by omega) fun ⟨_, h⟩ => ?_
    simpa only [List.drop_drop, and_assoc] using h
  | .switch o condition cases, start => by
    have hlength : (Statement.switch o condition cases).symbols.length =
        condition.symbols.length + (armSymbols cases).length + 2 := by
      simp [Statement.symbols]
      omega
    have hcases := placed_arms cases (start + (condition.symbols.length + 1))
    refine ((condition.placed ts (start + 1)).append hcases (by omega)).mono (by omega) (by omega) fun ⟨_, h⟩ => ?_
    simpa only [List.drop_drop] using h
  | .loop o condition body, start => by
    have hlength : (Statement.loop o condition body).symbols.length =
        condition.symbols.length + (blockSymbols body).length + 3 := by
      simp [Statement.symbols]
      omega
    have hbody := placed_block body (start + (condition.symbols.length + 2))
    refine ((condition.placed ts (start + 1)).append hbody (by omega)).mono (by omega) (by omega) fun ⟨_, h⟩ => ?_
    simpa only [List.drop_drop] using h
  | .returning o value, start => by
    have hlength : (Statement.returning o value).symbols.length = value.symbols.length + 2 := by
      simp [Statement.symbols]
    refine (value.placed ts (start + 1)).mono (by omega) (by omega) fun ⟨_, h⟩ => ?_
    simpa only [List.drop_drop] using h

theorem placed_block : ∀ (body : List Statement) (start : Nat),
    Placed ts (blockTrees start body) start (start + (blockSymbols body).length) (blockIds body)
      (BlockAnchored body (ts.drop start))
  | [], start => .nil (by omega)
  | first :: rest, start => by
    have hlength : (blockSymbols (first :: rest)).length = first.symbols.length + (blockSymbols rest).length := by
      simp [blockSymbols]
    have hrest := placed_block rest (start + first.symbols.length)
    refine ((first.placed start).append hrest le_rfl).mono le_rfl (by omega) fun h => ⟨h.1, ?_⟩
    simpa only [List.drop_drop] using h.2

theorem Case.placed : ∀ (c : Case) (start : Nat),
    Placed ts (c.trees start) start (start + c.symbols.length) c.ids (c.Anchored (ts.drop start))
  | .mk o none body, start => by
    have hlength : (Case.mk o none body).symbols.length = (blockSymbols body).length + 1 := rfl
    refine (placed_block body (start + 1)).mono (by omega) (by omega) fun ⟨_, h⟩ => ?_
    simpa only [List.drop_drop] using h
  | .mk o (some value) body, start => by
    have hlength : (Case.mk o (some value) body).symbols.length =
        value.symbols.length + (blockSymbols body).length + 2 := by
      simp [Case.symbols]
      omega
    have hbody := placed_block body (start + (value.symbols.length + 2))
    refine ((value.placed ts (start + 1)).append hbody (by omega)).mono (by omega) (by omega) fun ⟨_, h⟩ => ?_
    simpa only [List.drop_drop] using h

theorem placed_arms : ∀ (cases : List Case) (start : Nat),
    Placed ts (armTrees start cases) start (start + (armSymbols cases).length) (armIds cases)
      (ArmsAnchored cases (ts.drop start))
  | [], start => .nil (by omega)
  | arm :: rest, start => by
    have hlength : (armSymbols (arm :: rest)).length = arm.symbols.length + (armSymbols rest).length := by
      simp [armSymbols]
    have hrest := placed_arms rest (start + arm.symbols.length)
    refine ((arm.placed start).append hrest le_rfl).mono le_rfl (by omega) fun h => ⟨h.1, ?_⟩
    simpa only [List.drop_drop] using h.2

end

/-! ## §4 Functions, globals and programs -/

theorem placed_parameters (ps : List Parameter) (start : Nat) :
    Placed ts (parameterTrees start ps) start (start + ((ps.map Parameter.symbols).flatMap (mark "," :: ·)).length)
      (ps.map fun p => p.node.id) (CommasAnchored Parameter.symbols Parameter.Anchored ps (ts.drop start)) := by
  induction ps generalizing start with
  | nil => exact .nil (by omega)
  | cons p rest ih =>
    have hlength : p.symbols.length = 3 := rfl
    have hnone : Placed ts [] start start [] True := .nil le_rfl
    have hp : Placed ts [p.tree start] start (start + p.symbols.length) [p.node.id] (p.Anchored (ts.drop start)) :=
      (hnone.node le_rfl (by omega) (by omega)).mono le_rfl le_rfl fun h => ⟨h, trivial⟩
    refine (hp.append (ih (start + (p.symbols.length + 1))) (by omega)).mono le_rfl ?_ fun h => ⟨h.1, ?_⟩
    · simp only [List.map_cons, List.flatMap_cons, List.length_append, List.length_cons]
      omega
    · simpa only [List.drop_drop] using h.2

theorem Function.placed (f : Function) (start : Nat) :
    Placed ts [f.tree start] start (start + f.symbols.length) f.ids (f.Anchored (ts.drop start)) := by
  have hcommas := length_flatMap_le_length_commas (f.parameters.map Parameter.symbols)
  have hlength : f.symbols.length = (commas (f.parameters.map Parameter.symbols)).length +
      (typeSymbols f.returns).length + (blockSymbols f.body).length + 6 := by
    simp [Function.symbols]
    omega
  have hbody := placed_block ts f.body
    (start + (5 + (commas (f.parameters.map Parameter.symbols)).length + (typeSymbols f.returns).length))
  have hparts := (placed_parameters ts f.parameters (start + 3)).append hbody (by omega)
  refine (hparts.node (by omega) (by omega) (by omega)).mono le_rfl le_rfl fun h => ⟨h.1, ?_⟩
  simpa only [List.drop_drop] using h.2

theorem Global.placed (g : Global) (start : Nat) :
    Placed ts [g.tree start] start (start + g.symbols.length) g.ids (g.Anchored (ts.drop start)) := by
  have hlength : g.symbols.length = (typeSymbols g.type).length + (valueSymbols g.value).length + 3 := by
    simp [Global.symbols]
    omega
  have hvalue := placed_option ts g.value (start + (2 + (typeSymbols g.type).length))
  refine (hvalue.node (by omega) (by omega) (by omega)).mono le_rfl le_rfl fun h => ⟨h.1, ?_⟩
  simpa only [List.drop_drop] using h.2

theorem placed_row {α : Type} {symbols : α → List Symbol} {tree : Nat → α → NodeTree} {ids : α → List Nat}
    {anchored : α → List Token → Prop}
    (h : ∀ x start, Placed ts [tree start x] start (start + (symbols x).length) (ids x) (anchored x (ts.drop start)))
    (xs : List α) (start : Nat) :
    Placed ts (rowTrees symbols tree start xs) start (start + (xs.flatMap symbols).length) (xs.flatMap ids)
      (InRowAnchored symbols anchored xs (ts.drop start)) := by
  induction xs generalizing start with
  | nil => exact .nil (by omega)
  | cons x rest ih =>
    have hlength : ((x :: rest).flatMap symbols).length = (symbols x).length + (rest.flatMap symbols).length := by simp
    refine ((h x start).append (ih _) le_rfl).mono le_rfl (by omega) fun hx => ⟨hx.1, ?_⟩
    simpa only [List.drop_drop] using hx.2

theorem Program.placed (p : Program) : Placed ts p.trees 0 p.symbols.length p.ids (p.Anchored ts) := by
  have hglobals := placed_row ts (Global.placed ts) p.globals 0
  have hfunctions := placed_row ts (Function.placed ts) p.functions (p.globals.flatMap Global.symbols).length
  refine (hglobals.append hfunctions (by omega)).mono le_rfl ?_ fun h => h
  rw [Program.symbols, List.length_append]

end

/-! ## §5 The numbering -/

/-- All nodes of a program. -/
def Program.nodes (p : Program) : List NodeTree :=
  forestNodes p.trees

/-- The nodes of a program are numbered from zero on, from left to right, and some kinds of nodes before the nodes below
them, the others after.  The place of a node in the token list is that of a token with the node's offset. -/
structure Numbered (ts : List Token) (p : Program) : Prop where
  dense : (p.nodes.map NodeTree.id).Perm (List.range p.nodes.length)
  above {x y : NodeTree} (hx : x ∈ p.nodes) (hy : y ∈ x.descendants) :
    if x.kind.first then x.id < y.id else y.id < x.id
  apart {x y : NodeTree} (hx : x ∈ p.nodes) (hy : y ∈ p.nodes) (hxy : y ∉ x.nodes) (hyx : x ∉ y.nodes) :
    x.start ≠ y.start ∧ (x.start < y.start ↔ x.id < y.id)
  starts {x : NodeTree} (hx : x ∈ p.nodes) : StartsAt x.node.offset (ts.drop x.start)

/-- Every program that is read from a token list is numbered. -/
theorem numbered_of_parse {ts : List Token} {p : Program} (h : parse ts = .ok p) : Numbered ts p := by
  obtain ⟨t, hread, -⟩ := passes_of_parse h
  have hplaced := p.placed ts
  have hperm : p.ids.Perm (p.nodes.map NodeTree.id) := hplaced.ids ▸ forestIds_perm p.trees
  have hfresh : p.ids = List.range' 0 p.ids.length := hread.passes.fresh
  have hlength : p.ids.length = p.nodes.length := by rw [hperm.length_eq, List.length_map]
  -- Ids are handed out as they increase, so the order in which they are handed out is their order as numbers.
  have hids : (forestIds p.trees).Pairwise (· < ·) := by
    rw [hplaced.ids, hfresh]
    exact List.pairwise_lt_range'
  refine ⟨?_, ids_above hids, fun hx hy hxy hyx => ?_, fun hx => hplaced.starts hread.anchored _ hx⟩
  · rw [← hlength, List.range_eq_range', ← hfresh]
    exact hperm.symm
  · obtain ⟨hstart, hid⟩ | ⟨hstart, hid⟩ := ids_apart hplaced.laid hids hx hy hxy hyx
    · exact ⟨hstart.ne, iff_of_true hstart hid⟩
    · exact ⟨hstart.ne', iff_of_false hstart.asymm hid.asymm⟩

/-- The tokens of `LIST a: Any = [1]; FUN f(b: Any) DO LET c = (b); END`. -/
def listedTokens : List Token :=
  [⟨.identifier, "LIST", 0⟩, ⟨.identifier, "a", 5⟩, ⟨.operator, ":", 6⟩, ⟨.identifier, "Any", 8⟩, ⟨.operator, "=", 12⟩,
    ⟨.operator, "[", 14⟩, ⟨.integer, "1", 15⟩, ⟨.operator, "]", 16⟩, ⟨.operator, ";", 17⟩, ⟨.identifier, "FUN", 19⟩,
    ⟨.identifier, "f", 23⟩, ⟨.operator, "(", 24⟩, ⟨.identifier, "b", 25⟩, ⟨.operator, ":", 26⟩,
    ⟨.identifier, "Any", 28⟩, ⟨.operator, ")", 31⟩, ⟨.identifier, "DO", 33⟩, ⟨.identifier, "LET", 36⟩,
    ⟨.identifier, "c", 40⟩, ⟨.operator, "=", 42⟩, ⟨.operator, "(", 44⟩, ⟨.identifier, "b", 45⟩, ⟨.operator, ")", 46⟩,
    ⟨.operator, ";", 47⟩, ⟨.identifier, "END", 49⟩]

/-- The tree of the tokens. -/
def listedProgram : Program :=
  ⟨[⟨⟨0, 0⟩, "a", true, some "Any", some (.list ⟨1, 14⟩ [.literal ⟨2, 15⟩ (.integer 1)])⟩],
    [⟨⟨3, 19⟩, "f", [⟨⟨4, 25⟩, "b", "Any"⟩], none,
      [.declaration ⟨5, 36⟩ "c" none (some (.group ⟨7, 44⟩ (.variable ⟨6, 45⟩ "b")))]⟩]⟩

/-- The declaration gets its id before its value, the value after what stands in its parentheses. -/
theorem numbered_of_parse_listed : parse listedTokens = .ok listedProgram ∧ Numbered listedTokens listedProgram ∧
    listedProgram.nodes.map NodeTree.id = [0, 1, 2, 3, 4, 5, 7, 6] := by
  have hparse : parse listedTokens = .ok listedProgram := rfl
  exact ⟨hparse, numbered_of_parse hparse, rfl⟩

end BlockLang
