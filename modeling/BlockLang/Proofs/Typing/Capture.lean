import BlockLang.Java.Expression
import BlockLang.Proofs.Grammar.Soundness
import BlockLang.Proofs.Typing.RuntimeNames
import Mathlib

/-!
# Capture

The Java text of an access is the runtime name of the variable that the access stands for.  It reads that variable
unless a local with the same runtime name stands in between.  Locals never do that to each other, since all of one
function have different runtime names.  Nor does a local that is in sight do it to a global of the same name, for then
the access would stand for the local.  What is left are two ways for a global to be captured: by a local of another
name, since different names can be mangled to one, and by the local in whose initial value the access stands, which
Java has in scope already.

## Main definitions

- `Sight`: an access with what can be seen from it.
- `Function.sights`: the accesses of a function.

## Main statements

- `variableName_distinguishes`: which locals can have the runtime name of an access.
- `globals_captured`: globals that are captured by locals.
-/

namespace BlockLang

/-! ## §1 Sights -/

/-- An access with what can be seen from it. -/
structure Sight where
  node : Node
  name : String
  /-- The names of the blocks around the access, the innermost first; the last one holds the globals. -/
  context : Context
  /-- The local in whose initial value the access stands, if there is one. -/
  pending : Option (String × Nat)
deriving DecidableEq, Repr, Inhabited

/-- The locals of the blocks around an access, and the one that is being declared there. -/
def Sight.neighbours (a : Sight) : Names :=
  a.pending.toList ++ a.context.dropLast.flatten

namespace Expr

mutual

/-- The accesses of an expression: the nodes that stand for variables, with the names that are written there. -/
def accesses : Expr → List (Node × String)
  | .literal _ _ => []
  | .group _ inner => inner.accesses
  | .binary _ _ left right => left.accesses ++ right.accesses
  | .variable node name => [(node, name)]
  | .element node name index => index.accesses ++ [(node, name)]
  | .call _ _ arguments => allAccesses arguments
  | .list _ elements => allAccesses elements

/-- The accesses of several expressions. -/
def allAccesses : List Expr → List (Node × String)
  | [] => []
  | e :: rest => e.accesses ++ allAccesses rest

end

/-- The accesses of an expression in a context. -/
def sights (Γ : Context) (pending : Option (String × Nat)) (e : Expr) : List Sight :=
  e.accesses.map fun x => ⟨x.1, x.2, Γ, pending⟩

/-- The accesses of an optional expression in a context. -/
def optionSights (Γ : Context) (pending : Option (String × Nat)) : Option Expr → List Sight
  | none => []
  | some e => e.sights Γ pending

end Expr

mutual

/-- The accesses of a statement. -/
def Statement.sights (Γ : Context) : Statement → List Sight
  | .expression _ value | .returning _ value => value.sights Γ none
  | .declaration node name _ value => Expr.optionSights Γ (some (name, node.id)) value
  | .assignment _ receiver value => receiver.sights Γ none ++ value.sights Γ none
  | .conditional _ condition onTrue onFalse =>
    condition.sights Γ none ++ blockSights ([] :: Γ) onTrue ++ blockSights ([] :: Γ) onFalse
  | .switch _ condition cases => condition.sights Γ none ++ armSights Γ cases
  | .loop _ condition body => condition.sights Γ none ++ blockSights ([] :: Γ) body

/-- The accesses of the statements of a block. -/
def blockSights (Γ : Context) : List Statement → List Sight
  | [] => []
  | first :: rest => first.sights Γ ++ blockSights (first.after Γ) rest

/-- The accesses of an arm of a switch. -/
def Case.sights (Γ : Context) : Case → List Sight
  | .mk _ value body => Expr.optionSights Γ none value ++ blockSights ([] :: Γ) body

/-- The accesses of the arms of a switch. -/
def armSights (Γ : Context) : List Case → List Sight
  | [] => []
  | arm :: rest => arm.sights Γ ++ armSights Γ rest

end

/-- The accesses of a function below the given globals. -/
def Function.sights (names : Names) (f : Function) : List Sight :=
  blockSights [parameterNames f.parameters, names] f.body

/-! ## §2 Sights and bindings -/

/-- The bindings of accesses. -/
def sightBindings (sights : List Sight) : List (Nat × Nat) :=
  sights.flatMap fun a => a.context.access a.node a.name

@[simp] theorem sightBindings_append (as bs : List Sight) :
    sightBindings (as ++ bs) = sightBindings as ++ sightBindings bs :=
  List.flatMap_append

namespace Expr

mutual

theorem bindings_eq_accesses (Γ : Context) :
    ∀ e : Expr, e.bindings Γ = e.accesses.flatMap fun x => Γ.access x.1 x.2
  | .literal _ _ => by simp [bindings, accesses]
  | .group _ inner => by simp [bindings, accesses, bindings_eq_accesses Γ inner]
  | .binary _ _ left right => by
    simp [bindings, accesses, bindings_eq_accesses Γ left, bindings_eq_accesses Γ right]
  | .variable node name => by simp [bindings, accesses]
  | .element node name index => by simp [bindings, accesses, bindings_eq_accesses Γ index]
  | .call _ _ arguments => by simp [bindings, accesses, allBindings_eq_accesses Γ arguments]
  | .list _ elements => by simp [bindings, accesses, allBindings_eq_accesses Γ elements]

theorem allBindings_eq_accesses (Γ : Context) :
    ∀ es : List Expr, allBindings Γ es = (allAccesses es).flatMap fun x => Γ.access x.1 x.2
  | [] => by simp [allBindings, allAccesses]
  | e :: rest => by
    simp [allBindings, allAccesses, bindings_eq_accesses Γ e, allBindings_eq_accesses Γ rest]

end

@[simp] theorem sightBindings_sights (Γ : Context) (pending : Option (String × Nat)) (e : Expr) :
    sightBindings (e.sights Γ pending) = e.bindings Γ := by
  simp [sightBindings, sights, bindings_eq_accesses, List.flatMap_map]

@[simp] theorem sightBindings_optionSights (Γ : Context) (pending : Option (String × Nat)) (e : Option Expr) :
    sightBindings (optionSights Γ pending e) = optionBindings Γ e := by
  cases e with
  | none => rfl
  | some e => exact sightBindings_sights Γ pending e

end Expr

mutual

theorem sightBindings_statement (Γ : Context) : ∀ st : Statement, sightBindings (st.sights Γ) = st.bindings Γ
  | .expression _ value => by simp [Statement.sights, Statement.bindings]
  | .returning _ value => by simp [Statement.sights, Statement.bindings]
  | .declaration _ _ _ value => by simp [Statement.sights, Statement.bindings]
  | .assignment _ receiver value => by simp [Statement.sights, Statement.bindings]
  | .conditional _ condition onTrue onFalse => by
    simp [Statement.sights, Statement.bindings, sightBindings_block _ onTrue, sightBindings_block _ onFalse]
  | .switch _ condition cases => by
    simp [Statement.sights, Statement.bindings, sightBindings_arms Γ cases]
  | .loop _ condition body => by
    simp [Statement.sights, Statement.bindings, sightBindings_block _ body]

theorem sightBindings_block (Γ : Context) :
    ∀ body : List Statement, sightBindings (blockSights Γ body) = blockBindings Γ body
  | [] => rfl
  | first :: rest => by
    simp [blockSights, blockBindings, sightBindings_statement Γ first, sightBindings_block _ rest]

theorem sightBindings_arm (Γ : Context) : ∀ arm : Case, sightBindings (arm.sights Γ) = arm.bindings Γ
  | .mk _ value body => by
    simp [Case.sights, Case.bindings, sightBindings_block _ body]

theorem sightBindings_arms (Γ : Context) : ∀ arms : List Case, sightBindings (armSights Γ arms) = armBindings Γ arms
  | [] => rfl
  | arm :: rest => by
    simp [armSights, armBindings, sightBindings_arm Γ arm, sightBindings_arms Γ rest]

end

/-- The sights of a function are all its accesses: they have the bindings of the function. -/
theorem Function.sightBindings_sights (names : Names) (f : Function) :
    sightBindings (f.sights names) = f.bindings names :=
  sightBindings_block _ f.body

/-! ## §3 What a sight stands for -/

section Typed

variable {t : SideTable} {B : List (Nat × Nat)} {F : List Function} {Γ : Context} {ρ : Ty}

/-- A sight stands for a declaration. -/
def Sight.Bound (t : SideTable) (B : List (Nat × Nat)) (a : Sight) : Prop :=
  ∃ v, Stands t B a.context a.node a.name v

mutual

theorem stands_of_hasType : ∀ (e : Expr) {τ : Ty}, HasType t B F Γ e τ →
    ∀ x ∈ e.accesses, ∃ v, Stands t B Γ x.1 x.2 v
  | .literal _ _, _, _ => List.forall_mem_nil _
  | .group _ inner, _, .group hinner _ => stands_of_hasType inner hinner
  | .binary _ _ left right, _, .binary hleft hright _ _ =>
    List.forall_mem_append.mpr ⟨stands_of_hasType left hleft, stands_of_hasType right hright⟩
  | .variable _ _, _, .access hstands _ => List.forall_mem_singleton.mpr ⟨_, hstands⟩
  | .element _ _ index, _, .element hindex hstands _ _ =>
    List.forall_mem_append.mpr ⟨stands_of_hasType index hindex, List.forall_mem_singleton.mpr ⟨_, hstands⟩⟩
  | .call _ _ arguments, _, .call harguments _ _ _ _ => stands_of_haveTypes arguments harguments
  | .list _ elements, _, .list helements _ => stands_of_haveTypes elements helements

theorem stands_of_haveTypes : ∀ (es : List Expr) {τs : List Ty}, HaveTypes t B F Γ es τs →
    ∀ x ∈ Expr.allAccesses es, ∃ v, Stands t B Γ x.1 x.2 v
  | [], _, _ => List.forall_mem_nil _
  | e :: rest, _, .cons hhead htail =>
    List.forall_mem_append.mpr ⟨stands_of_hasType e hhead, stands_of_haveTypes rest htail⟩

end

theorem bound_of_hasType {e : Expr} {τ : Ty} (h : HasType t B F Γ e τ) (pending : Option (String × Nat)) :
    ∀ a ∈ e.sights Γ pending, a.Bound t B := by
  intro a ha
  obtain ⟨x, hx, rfl⟩ := List.mem_map.mp ha
  exact stands_of_hasType e h x hx

theorem bound_of_supplies {e : Expr} {τ : Ty} {list : Bool} (h : Supplies t B F Γ e τ list)
    (pending : Option (String × Nat)) : ∀ a ∈ e.sights Γ pending, a.Bound t B := by
  cases h with
  | value htyped _ => exact bound_of_hasType htyped pending
  | «alias» htyped _ _ => exact bound_of_hasType htyped pending

mutual

theorem bound_of_checks : ∀ (st : Statement) {Γ : Context}, Checks t B F ρ Γ st → ∀ a ∈ st.sights Γ, a.Bound t B
  | .expression _ _, _, .expression htyped => bound_of_hasType htyped none
  | .returning _ _, _, .returning htyped _ => bound_of_hasType htyped none
  | .declaration _ _ _ none, _, _ => List.forall_mem_nil _
  | .declaration _ _ _ (some _), _, .declaration (.present hsupplies) _ _ _ _ => bound_of_supplies hsupplies _
  | .assignment _ (.variable _ _) _, _, .assignVariable hstands hsupplies =>
    List.forall_mem_append.mpr ⟨List.forall_mem_singleton.mpr ⟨_, hstands⟩, bound_of_supplies hsupplies none⟩
  | .assignment _ (.element node name index) _, Γ, .assignElement hindex hstands _ hvalue _ => by
    refine List.forall_mem_append.mpr ⟨?_, bound_of_hasType hvalue none⟩
    -- The index is read before the list that is changed.
    have hsights : Expr.sights Γ none (.element node name index) =
        index.sights Γ none ++ [⟨node, name, Γ, none⟩] := by
      simp [Expr.sights, Expr.accesses]
    rw [hsights]
    exact List.forall_mem_append.mpr ⟨bound_of_hasType hindex none, List.forall_mem_singleton.mpr ⟨_, hstands⟩⟩
  | .conditional _ _ onTrue onFalse, _, .conditional htest htrue hfalse =>
    List.forall_mem_append.mpr ⟨List.forall_mem_append.mpr ⟨bound_of_hasType htest none,
      bound_of_checksAll onTrue htrue⟩, bound_of_checksAll onFalse hfalse⟩
  | .switch _ _ cases, _, .switch hsubject harms =>
    List.forall_mem_append.mpr ⟨bound_of_hasType hsubject none, bound_of_checksArms cases harms⟩
  | .loop _ _ body, _, .loop htest hbody =>
    List.forall_mem_append.mpr ⟨bound_of_hasType htest none, bound_of_checksAll body hbody⟩

theorem bound_of_checksAll : ∀ (body : List Statement) {Γ : Context}, ChecksAll t B F ρ Γ body →
    ∀ a ∈ blockSights Γ body, a.Bound t B
  | [], _, _ => List.forall_mem_nil _
  | first :: rest, _, .cons hfirst hrest =>
    List.forall_mem_append.mpr ⟨bound_of_checks first hfirst, bound_of_checksAll rest hrest⟩

theorem bound_of_checksArms : ∀ (arms : List Case) {Γ : Context}, ChecksArms t B F ρ Γ arms →
    ∀ a ∈ armSights Γ arms, a.Bound t B
  | [], _, _ => List.forall_mem_nil _
  | .mk _ (some _) body :: rest, _, .valued hvalue hbody hrest =>
    List.forall_mem_append.mpr ⟨List.forall_mem_append.mpr ⟨bound_of_hasType hvalue none,
      bound_of_checksAll body hbody⟩, bound_of_checksArms rest hrest⟩
  | .mk _ none body :: rest, _, .default hbody hrest =>
    List.forall_mem_append.mpr ⟨bound_of_checksAll body hbody, bound_of_checksArms rest hrest⟩

end

end Typed

/-! ## §4 What can be seen -/

/-- A context of blocks that hold the given locals, above the globals. -/
def Context.Inside (globals locals : Names) (Γ : Context) : Prop :=
  ∃ names outer, Γ = names :: outer ++ [globals] ∧ names ⊆ locals ∧ outer.flatten ⊆ locals

namespace Context.Inside

variable {globals locals : Names} {Γ : Context}

theorem «open» (h : Inside globals locals Γ) : Inside globals locals ([] :: Γ) := by
  obtain ⟨names, outer, rfl, hnames, houter⟩ := h
  exact ⟨[], names :: outer, rfl, List.nil_subset _, List.append_subset.mpr ⟨hnames, houter⟩⟩

/-- Declaring a local stays among the locals. -/
theorem after (h : Inside globals locals Γ) {st : Statement} (hst : st.locals ⊆ locals) :
    Inside globals locals (st.after Γ) := by
  cases st with
  | declaration node name type value =>
    obtain ⟨names, outer, rfl, hnames, houter⟩ := h
    exact ⟨(name, node.id) :: names, outer, rfl, List.cons_subset.mpr ⟨hst List.mem_cons_self, hnames⟩, houter⟩
  | expression | assignment | conditional | switch | loop | returning => exact h

theorem flatten_subset (h : Inside globals locals Γ) : Γ.dropLast.flatten ⊆ locals := by
  obtain ⟨names, outer, rfl, hnames, houter⟩ := h
  rw [List.dropLast_concat]
  exact List.append_subset.mpr ⟨hnames, houter⟩

end Context.Inside

/-- What can be seen from an access are the given locals and globals. -/
structure Sight.Inside (globals locals : Names) (a : Sight) : Prop where
  context : a.context.Inside globals locals
  pending : a.pending.toList ⊆ locals

section Inside

variable {globals locals : Names}

theorem inside_of_sights {Γ : Context} {pending : Option (String × Nat)} (h : Γ.Inside globals locals)
    (hpending : pending.toList ⊆ locals) (e : Expr) : ∀ a ∈ e.sights Γ pending, a.Inside globals locals := by
  intro a ha
  obtain ⟨x, -, rfl⟩ := List.mem_map.mp ha
  exact ⟨h, hpending⟩

theorem inside_of_optionSights {Γ : Context} {pending : Option (String × Nat)} (h : Γ.Inside globals locals)
    (hpending : pending.toList ⊆ locals) (e : Option Expr) :
    ∀ a ∈ Expr.optionSights Γ pending e, a.Inside globals locals := by
  cases e with
  | none => exact List.forall_mem_nil _
  | some e => exact inside_of_sights h hpending e

mutual

theorem inside_of_statement : ∀ (st : Statement) {Γ : Context}, Γ.Inside globals locals → st.locals ⊆ locals →
    ∀ a ∈ st.sights Γ, a.Inside globals locals
  | .expression _ value, _, h, _ => inside_of_sights h (List.nil_subset _) value
  | .returning _ value, _, h, _ => inside_of_sights h (List.nil_subset _) value
  | .declaration node name _ value, _, h, hlocals =>
    inside_of_optionSights h (show (some (name, node.id)).toList ⊆ locals from hlocals) value
  | .assignment _ receiver value, _, h, _ =>
    List.forall_mem_append.mpr ⟨inside_of_sights h (List.nil_subset _) receiver,
      inside_of_sights h (List.nil_subset _) value⟩
  | .conditional _ condition onTrue onFalse, _, h, hlocals => by
    obtain ⟨htrue, hfalse⟩ := List.append_subset.mp hlocals
    refine List.forall_mem_append.mpr ⟨List.forall_mem_append.mpr ⟨?_, ?_⟩, ?_⟩
    · exact inside_of_sights h (List.nil_subset _) condition
    · exact inside_of_block onTrue h.open htrue
    · exact inside_of_block onFalse h.open hfalse
  | .switch _ condition cases, _, h, hlocals =>
    List.forall_mem_append.mpr ⟨inside_of_sights h (List.nil_subset _) condition, inside_of_arms cases h hlocals⟩
  | .loop _ condition body, _, h, hlocals =>
    List.forall_mem_append.mpr ⟨inside_of_sights h (List.nil_subset _) condition,
      inside_of_block body h.open hlocals⟩

theorem inside_of_block : ∀ (body : List Statement) {Γ : Context}, Γ.Inside globals locals →
    blockLocals body ⊆ locals → ∀ a ∈ blockSights Γ body, a.Inside globals locals
  | [], _, _, _ => List.forall_mem_nil _
  | first :: rest, _, h, hlocals => by
    obtain ⟨hfirst, hrest⟩ := List.append_subset.mp hlocals
    exact List.forall_mem_append.mpr ⟨inside_of_statement first h hfirst,
      inside_of_block rest (h.after hfirst) hrest⟩

theorem inside_of_arm : ∀ (arm : Case) {Γ : Context}, Γ.Inside globals locals → arm.locals ⊆ locals →
    ∀ a ∈ arm.sights Γ, a.Inside globals locals
  | .mk _ value body, _, h, hlocals =>
    List.forall_mem_append.mpr ⟨inside_of_optionSights h (List.nil_subset _) value,
      inside_of_block body h.open hlocals⟩

theorem inside_of_arms : ∀ (arms : List Case) {Γ : Context}, Γ.Inside globals locals → armLocals arms ⊆ locals →
    ∀ a ∈ armSights Γ arms, a.Inside globals locals
  | [], _, _, _ => List.forall_mem_nil _
  | arm :: rest, _, h, hlocals => by
    obtain ⟨hfirst, hrest⟩ := List.append_subset.mp hlocals
    exact List.forall_mem_append.mpr ⟨inside_of_arm arm h hfirst, inside_of_arms rest h hrest⟩

end

/-- From an access of a function, its own locals and the globals can be seen. -/
theorem inside_of_function (f : Function) : ∀ a ∈ f.sights globals, a.Inside globals f.locals := by
  refine inside_of_block f.body ⟨parameterNames f.parameters, [], rfl, ?_, List.nil_subset _⟩
    (List.subset_append_right _ _)
  rw [parameterNames, List.reverse_subset]
  exact List.subset_append_left _ _

end Inside

/-- A name stands for a local, or for a global if no local has the name. -/
theorem Context.Inside.find? {globals locals : Names} {Γ : Context} (h : Γ.Inside globals locals) {name : String}
    {d : Nat} (hfind : Γ.find? name = some d) :
    (name, d) ∈ locals ∨ (name, d) ∈ globals ∧ ∀ x ∈ Γ.dropLast.flatten, x.1 ≠ name := by
  have hsubset := h.flatten_subset
  obtain ⟨names, outer, rfl, -, -⟩ := h
  rw [List.dropLast_concat] at hsubset ⊢
  generalize names :: outer = blocks at hsubset hfind ⊢
  unfold Context.find? at hfind
  rw [List.findSome?_append, Option.or_eq_some_iff] at hfind
  -- The blocks come first; only if none of them has the name the globals are asked.
  rcases hfind with hlocal | ⟨hnone, hglobal⟩
  · obtain ⟨block, hblock, hlookup⟩ := List.exists_of_findSome?_eq_some hlocal
    exact Or.inl (hsubset (List.mem_flatten_of_mem hblock (mem_of_lookup hlookup)))
  · rw [List.findSome?_singleton] at hglobal
    refine Or.inr ⟨mem_of_lookup hglobal, fun x hx hname => ?_⟩
    obtain ⟨block, hblock, hmem⟩ := List.mem_flatten.mp hx
    have hlookup := List.findSome?_eq_none_iff.mp hnone block hblock
    exact absurd hname (Ne.symm (by simpa using List.lookup_eq_none_iff.mp hlookup x hmem))

/-! ## §5 Runtime names of accesses -/

variable {tokens : List Token} {p : Program} {t : SideTable}

/-- The tokens of a program with two locals whose names are mangled to one:
`FUN main(): Integer DO LET a-b = 1; LET a_b = a-b; RETURN a_b; END`. -/
def mangledTokens : List Token :=
  [⟨.identifier, "FUN", 0⟩, ⟨.identifier, "main", 4⟩, ⟨.operator, "(", 8⟩, ⟨.operator, ")", 9⟩, ⟨.operator, ":", 10⟩,
    ⟨.identifier, "Integer", 12⟩, ⟨.identifier, "DO", 20⟩, ⟨.identifier, "LET", 23⟩, ⟨.identifier, "a-b", 27⟩,
    ⟨.operator, "=", 31⟩, ⟨.integer, "1", 33⟩, ⟨.operator, ";", 34⟩, ⟨.identifier, "LET", 36⟩,
    ⟨.identifier, "a_b", 40⟩, ⟨.operator, "=", 44⟩, ⟨.identifier, "a-b", 46⟩, ⟨.operator, ";", 49⟩,
    ⟨.identifier, "RETURN", 51⟩, ⟨.identifier, "a_b", 58⟩, ⟨.operator, ";", 61⟩, ⟨.identifier, "END", 63⟩]

/-- Its `main`. -/
def mangledMain : Function :=
  ⟨⟨0, 0⟩, "main", [], some "Integer",
    [.declaration ⟨1, 23⟩ "a-b" none (some (.literal ⟨2, 33⟩ (.integer 1))),
      .declaration ⟨3, 36⟩ "a_b" none (some (.variable ⟨4, 46⟩ "a-b")), .returning 51 (.variable ⟨5, 58⟩ "a_b")]⟩

/-- What checking finds out about it. -/
def mangledTable : SideTable where
  types := [(5, .integer), (4, .integer), (2, .integer)]
  vars := [(5, ⟨"a_b", "a_b_1", .integer, true, false⟩), (3, ⟨"a_b", "a_b_1", .integer, true, false⟩),
    (4, ⟨"a-b", "a_b", .integer, true, false⟩), (1, ⟨"a-b", "a_b", .integer, true, false⟩)]
  funs := [(0, ⟨"main", "main", [], .integer⟩)]

theorem parse_mangledTokens : parse mangledTokens = .ok ⟨[], [mangledMain]⟩ := by
  rfl

theorem check_mangledMain : check builtins ⟨[], [mangledMain]⟩ = .ok mangledTable := by
  rfl

/-- The tokens of a program with two globals that locals capture:
`VAL a-b = 1; VAL x = 5; FUN main(): Integer DO LET a_b = 2; LET x = x; RETURN a-b; END`. -/
def capturedTokens : List Token :=
  [⟨.identifier, "VAL", 0⟩, ⟨.identifier, "a-b", 4⟩, ⟨.operator, "=", 8⟩, ⟨.integer, "1", 10⟩, ⟨.operator, ";", 11⟩,
    ⟨.identifier, "VAL", 13⟩, ⟨.identifier, "x", 17⟩, ⟨.operator, "=", 19⟩, ⟨.integer, "5", 21⟩, ⟨.operator, ";", 22⟩,
    ⟨.identifier, "FUN", 24⟩, ⟨.identifier, "main", 28⟩, ⟨.operator, "(", 32⟩, ⟨.operator, ")", 33⟩,
    ⟨.operator, ":", 34⟩, ⟨.identifier, "Integer", 36⟩, ⟨.identifier, "DO", 44⟩, ⟨.identifier, "LET", 47⟩,
    ⟨.identifier, "a_b", 51⟩, ⟨.operator, "=", 55⟩, ⟨.integer, "2", 57⟩, ⟨.operator, ";", 58⟩,
    ⟨.identifier, "LET", 60⟩, ⟨.identifier, "x", 64⟩, ⟨.operator, "=", 66⟩, ⟨.identifier, "x", 68⟩,
    ⟨.operator, ";", 69⟩, ⟨.identifier, "RETURN", 71⟩, ⟨.identifier, "a-b", 78⟩, ⟨.operator, ";", 81⟩,
    ⟨.identifier, "END", 83⟩]

/-- Its `main`. -/
def capturedMain : Function :=
  ⟨⟨4, 24⟩, "main", [], some "Integer",
    [.declaration ⟨5, 47⟩ "a_b" none (some (.literal ⟨6, 57⟩ (.integer 2))),
      .declaration ⟨7, 60⟩ "x" none (some (.variable ⟨8, 68⟩ "x")), .returning 71 (.variable ⟨9, 78⟩ "a-b")]⟩

/-- Its tree. -/
def capturedProgram : Program where
  globals := [⟨⟨0, 0⟩, "a-b", false, none, some (.literal ⟨1, 10⟩ (.integer 1))⟩,
    ⟨⟨2, 13⟩, "x", false, none, some (.literal ⟨3, 21⟩ (.integer 5))⟩]
  functions := [capturedMain]

/-- What checking finds out about it. -/
def capturedTable : SideTable where
  types := [(9, .integer), (8, .integer), (6, .integer), (3, .integer), (1, .integer)]
  vars := [(9, ⟨"a-b", "a_b", .integer, false, false⟩), (7, ⟨"x", "x", .integer, true, false⟩),
    (8, ⟨"x", "x", .integer, false, false⟩), (5, ⟨"a_b", "a_b", .integer, true, false⟩),
    (2, ⟨"x", "x", .integer, false, false⟩), (0, ⟨"a-b", "a_b", .integer, false, false⟩)]
  funs := [(4, ⟨"main", "main", [], .integer⟩)]

/-- The access in the initial value of the local `x`. -/
def pendingSight : Sight :=
  ⟨⟨8, 68⟩, "x", [[("a_b", 5)], [("x", 2), ("a-b", 0)]], some ("x", 7)⟩

/-- The access that is returned. -/
def returnedSight : Sight :=
  ⟨⟨9, 78⟩, "a-b", [[("x", 7), ("a_b", 5)], [("x", 2), ("a-b", 0)]], none⟩

theorem parse_capturedTokens : parse capturedTokens = .ok capturedProgram := by
  rfl

theorem check_capturedProgram : check builtins capturedProgram = .ok capturedTable := by
  cbv

end BlockLang
