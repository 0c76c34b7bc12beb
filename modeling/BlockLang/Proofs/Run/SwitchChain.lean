import BlockLang.Proofs.Run.Comparison
import BlockLang.Proofs.Run.Endings
import BlockLang.Proofs.Run.Unmentioned

/-!
# Switches as conditionals

A switch does what a chain of conditionals does: the condition is stored into a variable that is mentioned nowhere else,
and the values of the arms are tested in order, each test in the `ELSE` of the one before.  The statements of the first
arm without a value are in the innermost `ELSE`.

Each test but the first one is in a scope of its own, which stays empty, and the variable is in no scope of the switch.
So the stores of the two stay side by side, with one spare scope more from test to test.

## Main definitions

- `testsOf`: the nested conditionals.
- `chainOf`: the statements that a switch is equal to.
- `Testing`: where the two have got to before a test.

## Main statement

- `switch_eq_chain`
-/

namespace BlockLang

open Stateful

/-! ## §1 The chain -/

/-- The conditionals that test a variable against the values of the arms, nested in each other. -/
def testsOf (node : Node) (name : String) (otherwise : List Statement) : List Case → List Statement
  | [] => otherwise
  | .mk _ none _ :: rest => testsOf node name otherwise rest
  | .mk offset (some value) body :: rest =>
    [.conditional offset (.binary node .equal (.variable node name) value) body (testsOf node name otherwise rest)]

/-- The statements of a switch as a chain of conditionals: the condition is evaluated once, and if there is no value to
test, there is still an `ELSE`. -/
def chainOf (node : Node) (name : String) (condition : Expr) (cases : List Case) : List Statement :=
  .declaration node name none (some condition) ::
    if cases.any fun c => c.value.isSome then
      testsOf node name ((Eval.fallback? cases).getD []) cases
    else
      [.conditional node.offset (.literal node (.boolean false)) [] ((Eval.fallback? cases).getD [])]

namespace Eval

variable {env : Env} {s : Store} {n : Nat}

/-! ## §2 Steps -/

/-- A block without statements does nothing. -/
theorem block_nil (exec : Env → Statement → Eval Flow) (env : Env) : block exec env [] = pure .normal := by
  funext s
  have hclosed : s.openScope.closeScope = s := by simp [Store.openScope, Store.closeScope]
  exact congrArg (EStateM.Result.ok Flow.normal) hclosed

theorem inOrder_singleton (exec : Statement → Eval Flow) (st : Statement) : inOrder exec [st] = exec st := by
  funext s
  rw [inOrder]
  cases hrun : exec st s with
  | ok flow t =>
    rw [bind_of_ok hrun]
    cases flow <;> rfl
  | error e t => rw [bind_of_error hrun]

theorem block_singleton (exec : Env → Statement → Eval Flow) (env : Env) (st : Statement) :
    block exec env [st] = inScope env fun inner => exec inner st := by
  simp only [block, inOrder_singleton]

/-- A conditional executes one of its branches as a block. -/
theorem statement_conditional (env : Env) (offset : Nat) (condition : Expr) (onTrue onFalse : List Statement) :
    statement (n + 1) env (.conditional offset condition onTrue onFalse) =
      expression n env condition >>= fun v => ofExcept (v.asBoolean condition.offset) >>= fun holds =>
        block (statement n) env (if holds then onTrue else onFalse) := by
  have hbranch : ∀ body : List Statement,
      (if body.isEmpty then (return .normal) else block (statement n) env body) = block (statement n) env body := by
    intro body
    cases body with
    | nil => exact (block_nil _ env).symm
    | cons => rfl
  simp only [statement, hbranch]

/-- Selects among arms and executes what has been selected as a block. -/
def arms (n : Nat) (env : Env) (subject : Value) (fallback : Option (List Statement)) (cases : List Case) : Eval Flow :=
  select (expression n env) subject fallback cases >>= fun selected => block (statement n) env (selected.getD [])

theorem statement_switch (env : Env) (offset : Nat) (condition : Expr) (cases : List Case) :
    statement (n + 1) env (.switch offset condition cases) =
      expression n env condition >>= fun subject => arms n env subject none cases := by
  refine bind_congr fun subject => bind_congr fun selected => ?_
  cases selected with
  | none => exact (block_nil _ env).symm
  | some body => rfl

/-- The first arm that has a value is tested first. -/
theorem arms_value (env : Env) (subject : Value) (fallback : Option (List Statement)) (offset : Nat) (value : Expr)
    (body : List Statement) (rest : List Case) :
    arms n env subject fallback (.mk offset (some value) body :: rest) =
      expression n env value >>= fun v => get >>= fun t =>
        if t.heap.same v subject then block (statement n) env body else arms n env subject fallback rest := by
  simp only [arms, select, bind_assoc]
  refine bind_congr fun v => bind_congr fun t => ?_
  split
  · exact pure_bind (some body) _
  · rfl

theorem expression_variable {node : Node} {name : String} {ref : VariableRef} {cell : Cell}
    (hfind : s.findVariable? env name = some (ref, cell)) :
    expression (n + 1) env (.variable node name) s = .ok cell.value s :=
  bind_of_ok (resolve_of_found hfind)

/-- A variable is tested against a value. -/
theorem statement_test {node : Node} {name : String} {ref : VariableRef} {cell : Cell}
    (hfind : s.findVariable? env name = some (ref, cell)) (offset : Nat) (value : Expr)
    (onTrue onFalse : List Statement) :
    statement (n + 3) env (.conditional offset (.binary node .equal (.variable node name) value) onTrue onFalse) s =
      (expression (n + 1) env value >>= fun v => get >>= fun t =>
        block (statement (n + 2)) env (if t.heap.same cell.value v then onTrue else onFalse)) s := by
  have hbinary : expression (n + 2) env (.binary node .equal (.variable node name) value) s =
      (expression (n + 1) env value >>= fun v => get >>= fun t =>
        ofExcept (Operation.binary t.heap .equal cell.value v node.offset)) s :=
    bind_of_ok (expression_variable hfind)
  rw [statement_conditional, Stateful.bind_congr hbinary, bind_assoc]
  rfl

/-- An arm without a value is what to fall back to, unless there is one before it. -/
theorem or_fallback?_default (fallback : Option (List Statement)) (offset : Nat) (body : List Statement)
    (rest : List Case) :
    fallback.or (fallback? (.mk offset none body :: rest)) = (fallback.or (some body)).or (fallback? rest) := by
  rw [Option.or_assoc]
  rfl

/-- Without any value to test, there is only what to fall back to. -/
theorem arms_of_none (env : Env) (subject : Value) (fallback : Option (List Statement)) {cases : List Case}
    (hnone : ∀ c ∈ cases, c.value = none) :
    arms n env subject fallback cases = block (statement n) env ((fallback.or (fallback? cases)).getD []) := by
  induction cases generalizing fallback with
  | nil => rw [fallback?, Option.or_none, arms, select, pure_bind]
  | cons arm rest ih =>
    obtain ⟨offset, value, body⟩ := arm
    obtain ⟨hfirst, hrest⟩ := List.forall_mem_cons.mp hnone
    obtain rfl : value = none := hfirst
    rw [or_fallback?_default]
    exact ih (fallback.or (some body)) hrest

/-- The condition is stored into a variable. -/
theorem inOrder_chain (env : Env) (node : Node) (name : String) (condition : Expr) (rest : List Statement) :
    inOrder (statement (n + 1) env) (.declaration node name none (some condition) :: rest) =
      expression n env condition >>= fun subject => define env name ⟨true, subject⟩ node.offset >>= fun _ =>
        inOrder (statement (n + 1) env) rest := by
  simp only [inOrder, statement, optional, bind_assoc, pure_bind]

end Eval

/-- What is mentioned in no arm is not mentioned in what to fall back to. -/
theorem avoids_fallback {name : String} {cases : List Case} (h : Avoids name (armLocals cases) (armExpressions cases)) :
    Avoids name (blockLocals ((Eval.fallback? cases).getD [])) (blockExpressions ((Eval.fallback? cases).getD [])) := by
  induction cases with
  | nil => exact ⟨List.forall_mem_nil _, List.forall_mem_nil _⟩
  | cons arm rest ih =>
    obtain ⟨offset, value, body⟩ := arm
    cases value with
    | none => exact h.left
    | some value => exact ih h.right

namespace Store.Beside

variable {w : Spare} {m : Nat} {s s' : Store} {env env' : Env}

theorem endsAlike_expression (h : s.Beside w m s') (hlifts : w.Lifts env env') {e : Expr}
    (he : e.Avoids w.hidden.name) :
    EndsAlike (Store.Beside w m) (fun n => Eval.expression n env e) s (fun n => Eval.expression n env' e) s' :=
  .of_alongside (.expression env e) (.expression env' e) fun n =>
    (Matches.everything w n).expression hlifts e he s s' h

theorem endsAlike_block (h : s.Beside w m s') (hlifts : w.Lifts env env') {body : List Statement}
    (hbody : Avoids w.hidden.name (blockLocals body) (blockExpressions body)) :
    EndsAlike (Store.Beside w m) (fun n => Eval.block (Eval.statement n) env body) s
      (fun n => Eval.block (Eval.statement n) env' body) s' :=
  .of_alongside (.block env body) (.block env' body) fun n => (Matches.everything w n).block hlifts hbody s s' h

end Store.Beside

/-! ## §3 From test to test -/

/-- The stores of a switch and of its chain of conditionals before a test.  The subject is in the hidden variable, and
there is a spare scope for each test before but the first one. -/
structure Testing (w : Spare) (subject : Value) (env env' : Env) (s s' : Store) : Prop where
  beside : s.Beside w 0 s'
  subject : ∃ cell, w.cell? = some cell ∧ cell.value = subject
  opened : ∀ i ∈ w.hidden.scope :: env, i < w.base
  lifts : w.Lifts (w.hidden.scope :: env) env'

namespace Testing

variable {w : Spare} {subject : Value} {env env' : Env} {s s' t t' : Store}

/-- The stores have changed alike. -/
theorem later (h : Testing w subject env env' s s') (ht : t.Beside w 0 t') : Testing w subject env env' t t' :=
  { h with beside := ht }

/-- In the `ELSE` of a test there is another spare scope. -/
theorem inElse (h : Testing w subject env env' s s') :
    Testing w.more subject env (s'.scopes.size :: env') s s'.openScope where
  beside := h.beside.openSpare
  subject := h.subject
  opened := h.opened
  lifts := by
    have hsize : s'.scopes.size = w.base + w.count := h.beside.size_eq'
    exact .spare (by simp [hsize]) (by simp [hsize]) (h.lifts.more h.opened)

theorem block (h : Testing w subject env env' s s') {body : List Statement}
    (hbody : Avoids w.hidden.name (blockLocals body) (blockExpressions body)) :
    EndsAlike (Store.Beside w 0) (fun n => Eval.block (Eval.statement n) (w.hidden.scope :: env) body) s
      (fun n => Eval.block (Eval.statement n) env' body) s' :=
  h.beside.endsAlike_block h.lifts hbody

variable {node : Node} {cases rest : List Case} {fallback : Option (List Statement)} {otherwise : List Statement}

/-- An arm is taken in the switch exactly if it is in the chain. -/
theorem arm (h : Testing w subject env env' s s') {offset : Nat} {value : Expr} {body onFalse : List Statement}
    (harm : Avoids w.hidden.name (blockLocals body) (value :: blockExpressions body))
    (hrest : ∀ t t', Testing w subject env env' t t' →
      EndsAlike (Store.Beside w 0) (fun n => Eval.arms n (w.hidden.scope :: env) subject fallback rest) t
        (fun n => Eval.block (Eval.statement n) env' onFalse) t') :
    EndsAlike (Store.Beside w 0)
      (fun n => Eval.arms n (w.hidden.scope :: env) subject fallback (.mk offset (some value) body :: rest)) s
      (fun n => Eval.statement n env'
        (.conditional offset (.binary node .equal (.variable node w.hidden.name) value) body onFalse)) s' := by
  obtain ⟨cell, hcell, rfl⟩ := h.subject
  have hfind := h.beside.findVariable?_hidden hcell h.lifts
  -- The value of the arm is evaluated alike; the chain takes some more fuel around it.
  have hvalues := (h.beside.endsAlike_expression h.lifts harm.head).shift 1
  have hsequence := hvalues.bind (.expression _ value) ((Steady.expression _ value).shift 1) (fun _ _ ht => ht)
    (f := fun v n => get >>= fun t => if t.heap.same v cell.value then
      Eval.block (Eval.statement n) (w.hidden.scope :: env) body else
      Eval.arms n (w.hidden.scope :: env) cell.value fallback rest)
    (g := fun v n => get >>= fun t =>
      Eval.block (Eval.statement (n + 2)) env' (if t.heap.same cell.value v then body else onFalse))
    fun v t t' ht => ?_
  · refine hsequence.congr (fun _ => ends_congr_iff fun n => ?_) fun _ => ?_
    · rw [Eval.arms_value]
    · exact (ends_shift_iff 3).symm.trans (ends_congr_iff fun n => Eval.statement_test hfind offset value body onFalse)
  · -- Both compare the same values, which refer to the same lists.
    cases hsame : t.heap.same v cell.value with
    | true =>
      refine (((h.later ht).block harm.tail).shift 2).congr (fun _ => ends_congr_iff fun n => ?_) fun _ =>
        ends_congr_iff fun n => ?_
      · rw [get_bind, if_pos hsame]
      · rw [get_bind, ht.heap_eq, Heap.same_comm, if_pos hsame]
    | false =>
      refine ((hrest t t' (h.later ht)).shift 2).congr (fun _ => ends_congr_iff fun n => ?_) fun _ =>
        ends_congr_iff fun n => ?_
      · rw [get_bind, hsame]
        rfl
      · rw [get_bind, ht.heap_eq, Heap.same_comm, hsame]
        rfl

/-- In the `ELSE` of a test, the rest of the chain ends like the rest of the arms. -/
theorem nested (h : Testing w subject env env' s s')
    (hcases : Avoids w.hidden.name (armLocals cases) (armExpressions cases))
    (hfallback : ∀ body ∈ fallback, Avoids w.hidden.name (blockLocals body) (blockExpressions body))
    (hotherwise : (fallback.or (Eval.fallback? cases)).getD [] = otherwise) :
    EndsAlike (Store.Beside w 0) (fun n => Eval.arms n (w.hidden.scope :: env) subject fallback cases) s
      (fun n => Eval.block (Eval.statement n) env' (testsOf node w.hidden.name otherwise cases)) s' := by
  -- Each arm with a value adds a spare scope, which stays open for all arms behind it.
  induction cases generalizing fallback w env' s s' with
  | nil =>
    rw [Eval.fallback?, Option.or_none] at hotherwise
    have hbody : Avoids w.hidden.name (blockLocals otherwise) (blockExpressions otherwise) := by
      subst hotherwise
      cases fallback with
      | none => exact ⟨List.forall_mem_nil _, List.forall_mem_nil _⟩
      | some body => exact hfallback body rfl
    refine (h.block hbody).congr (fun _ => ends_congr_iff fun n => ?_) fun _ => Iff.rfl
    rw [Eval.arms, Eval.select, pure_bind, hotherwise]
  | cons arm rest ih =>
    obtain ⟨offset, value, body⟩ := arm
    cases value with
    | none =>
      have hbody : Avoids w.hidden.name (blockLocals body) (blockExpressions body) := hcases.left
      rw [Eval.or_fallback?_default] at hotherwise
      exact ih h hcases.right (forall_mem_or_some hfallback hbody) hotherwise
    | some value =>
      simp only [testsOf, Eval.block_singleton]
      refine EndsAlike.inScope (R := Store.Beside w.more 0) (.statement _ _) ?_ fun _ _ ht => ht.closeSpare
      exact h.inElse.arm hcases.left fun t t' ht => ih ht hcases.right hfallback hotherwise

/-- Outside of all conditionals, the chain ends like the switch if there is a value to test. -/
theorem outermost (h : Testing w subject env env' s s') (hsome : ∃ c ∈ cases, c.value.isSome)
    (hcases : Avoids w.hidden.name (armLocals cases) (armExpressions cases))
    (hfallback : ∀ body ∈ fallback, Avoids w.hidden.name (blockLocals body) (blockExpressions body))
    (hotherwise : (fallback.or (Eval.fallback? cases)).getD [] = otherwise) :
    EndsAlike (Store.Beside w 0) (fun n => Eval.arms n (w.hidden.scope :: env) subject fallback cases) s
      (fun n => Eval.inOrder (Eval.statement n env') (testsOf node w.hidden.name otherwise cases)) s' := by
  induction cases generalizing fallback with
  | nil =>
    obtain ⟨c, hc, -⟩ := hsome
    cases hc
  | cons arm rest ih =>
    obtain ⟨offset, value, body⟩ := arm
    cases value with
    | none =>
      have hbody : Avoids w.hidden.name (blockLocals body) (blockExpressions body) := hcases.left
      rw [Eval.or_fallback?_default] at hotherwise
      exact ih (by simpa [Case.value] using hsome) hcases.right (forall_mem_or_some hfallback hbody) hotherwise
    | some value =>
      simp only [testsOf, Eval.inOrder_singleton]
      exact h.arm hcases.left fun t t' ht => ht.nested hcases.right hfallback hotherwise

/-- So does a chain without any value to test. -/
theorem untested (h : Testing w subject env env' s s') (hnone : ∀ c ∈ cases, c.value = none)
    (hotherwise : Avoids w.hidden.name (blockLocals otherwise) (blockExpressions otherwise))
    (hfallback : (Eval.fallback? cases).getD [] = otherwise) :
    EndsAlike (Store.Beside w 0) (fun n => Eval.arms n (w.hidden.scope :: env) subject none cases) s
      (fun n => Eval.inOrder (Eval.statement n env')
        [.conditional node.offset (.literal node (.boolean false)) [] otherwise]) s' := by
  refine ((h.block hotherwise).shift 1).congr (fun _ => ends_congr_iff fun n => ?_) fun _ =>
    (ends_shift_iff 2).symm.trans (ends_congr_iff fun n => ?_)
  · rw [Eval.arms_of_none _ _ _ hnone, Option.none_or, hfallback]
  · rw [Eval.inOrder_singleton, Eval.statement_conditional]
    rfl

/-- So the chain ends like the switch in any case. -/
theorem chain (h : Testing w subject env env' s s') (node : Node)
    (hcases : Avoids w.hidden.name (armLocals cases) (armExpressions cases)) (condition : Expr) :
    EndsAlike (Store.Beside w 0) (fun n => Eval.arms n (w.hidden.scope :: env) subject none cases) s
      (fun n => Eval.inOrder (Eval.statement n env') (chainOf node w.hidden.name condition cases).tail) s' := by
  rw [chainOf, List.tail_cons]
  split
  next hsome =>
    exact h.outermost (List.any_eq_true.mp hsome) hcases (fun _ hnone => absurd hnone (Option.not_mem_none _)) rfl
  next hnone =>
    refine h.untested (fun c hc => ?_) (avoids_fallback hcases) rfl
    by_contra hvalue
    exact hnone (List.any_eq_true.mpr ⟨c, hc, Option.isSome_iff_ne_none.mpr hvalue⟩)

end Testing

/-! ## §4 Switches and chains -/

/-- No scope is spare yet, and the variable that will be hidden has not been defined. -/
def Spare.hiding (s : Store) (ref : VariableRef) : Spare :=
  ⟨s.scopes.size, 0, ref, none⟩

namespace Store.Ignores

variable {s t t' : Store} {env : Env} {scope : Nat} {name : String}

/-- Before the condition has been evaluated, both stores are the same. -/
theorem beside (h : s.Ignores (scope :: env) name) : s.Beside (.hiding s ⟨scope, name⟩) 0 s where
  heap_eq := rfl
  sink_eq := rfl
  size_eq := rfl
  size_eq' := rfl
  frames i := by
    have hlift : (Spare.hiding s ⟨scope, name⟩).lift i = i := by simp [Spare.lift, Spare.hiding]
    rw [hlift]
  spare i hbase hcount := absurd hcount (Nat.not_lt_of_le hbase)
  hidden_lt := h.opened scope List.mem_cons_self
  hidden := h.free
  functions := h.functions

/-- When the condition has been stored, the tests begin. -/
theorem testing (h : s.Ignores (scope :: env) name) (ht : t.Beside (.hiding s ⟨scope, name⟩) 0 t') (subject : Value)
    (offset : Nat) : ∃ u, Eval.define (scope :: env) name ⟨true, subject⟩ offset t' = .ok () u ∧
      Testing ((Spare.hiding s ⟨scope, name⟩).holding ⟨true, subject⟩) subject env (scope :: env) t u := by
  obtain ⟨u, hdefine, hu⟩ := ht.defineHidden rfl ⟨true, subject⟩
  exact ⟨u, Eval.define_eq_ok.mpr hdefine, hu, ⟨_, rfl, rfl⟩, h.opened, .of_lt h.opened⟩

end Store.Ignores

/-- A switch ends like the chain of conditionals, in a store that is the same but for the variable of the chain.  After
the value of an arm that the subject equals, no value is evaluated, and the statements of that arm alone are executed;
if there is none, it is those of the first arm without a value, if there is one. -/
theorem switch_eq_chain {s : Store} {env : Env} {name : String} (h : s.Ignores env name) (node : Node) {offset : Nat}
    {condition : Expr} {cases : List Case} (havoids : Avoids name (Statement.switch offset condition cases).locals
      (Statement.switch offset condition cases).expressions) :
    EndsAlike (fun t t' => t'.without name = t.without name)
        (fun n => Eval.statement n env (.switch offset condition cases)) s
        (fun n => Eval.inOrder (Eval.statement n env) (chainOf node name condition cases)) s ∧
      ∀ n subject selected t u, Eval.expression n env condition s = .ok subject t →
        Eval.Selects (Eval.expression n env) subject none cases t selected u →
        Eval.statement (n + 1) env (.switch offset condition cases) s =
          Eval.block (Eval.statement n) env (selected.getD []) u := by
  constructor
  · obtain ⟨scope, outer, rfl⟩ := List.exists_cons_of_ne_nil h.env_ne_nil
    have hcondition := h.beside.endsAlike_expression (.of_lt h.opened) havoids.head
    have hsequence := hcondition.bind (.expression _ condition) (.expression _ condition)
      (fun _ _ ht => ht.without_eq rfl) (f := fun subject n => Eval.arms n (scope :: outer) subject none cases)
      (g := fun subject n => Eval.define (scope :: outer) name ⟨true, subject⟩ node.offset >>= fun _ =>
        Eval.inOrder (Eval.statement (n + 1) (scope :: outer)) (chainOf node name condition cases).tail)
      fun subject t t' ht => ?_
    · refine hsequence.congr (fun _ => (ends_shift_iff 1).symm.trans (ends_congr_iff fun n => ?_)) fun _ =>
        (ends_shift_iff 1).symm.trans (ends_congr_iff fun n => ?_)
      · rw [Eval.statement_switch]
      · rw [chainOf, Eval.inOrder_chain, List.tail_cons]
    · obtain ⟨u, hdefine, htesting⟩ := h.testing ht subject node.offset
      have hchain := (htesting.chain node havoids.tail condition).mono fun _ _ hu => hu.without_eq rfl
      exact (hchain.shift 1).congr (fun _ => Iff.rfl) fun _ => ends_congr_iff fun n => bind_of_ok hdefine
  · intro n subject selected t u hcondition hselects
    rw [Eval.statement_switch, bind_of_ok hcondition, Eval.arms, bind_of_ok (Eval.select_eq_ok_iff.mpr hselects)]

/-- An integer as an expression. -/
def integerLiteral (n : Int) : Expr :=
  .literal ⟨0, 0⟩ (.integer n)

/-- Arms that return different numbers; the value of the first one creates a list. -/
def returningArms : List Case :=
  [.mk 0 (some (.list ⟨0, 0⟩ [])) [.returning 0 (integerLiteral 1)], .mk 0 none [.returning 0 (integerLiteral 2)],
    .mk 0 (some (integerLiteral 7)) [.returning 0 (integerLiteral 3)]]

/-- The chain creates the list and returns what the arm behind the one without a value does. -/
theorem switch_eq_chain_returning : (Store.initial none).Ignores .globals "t" ∧
    Avoids "t" (Statement.switch 0 (integerLiteral 7) returningArms).locals
      (Statement.switch 0 (integerLiteral 7) returningArms).expressions ∧
    ∃ t, Ends (fun n => Eval.inOrder (Eval.statement n .globals) (chainOf ⟨0, 0⟩ "t" (integerLiteral 7) returningArms))
      (.initial none) (.ok (.returned (.integer 3)) t) ∧ t.heap = ⟨#[[]]⟩ := by
  have hignores := (Store.Lacks.initial none "t").ignores (List.cons_ne_nil _ _)
    (List.forall_mem_singleton.mpr Nat.one_pos)
  have havoids : Avoids "t" (Statement.switch 0 (integerLiteral 7) returningArms).locals
      (Statement.switch 0 (integerLiteral 7) returningArms).expressions := by
    refine ⟨List.forall_mem_nil _, ?_⟩
    simp [returningArms, integerLiteral, Statement.expressions, armExpressions, Case.expressions, blockExpressions,
      Expr.Avoids, Expr.parts, Expr.variable?]
  refine ⟨hignores, havoids, ?_⟩
  have hrun : Eval.statement 4 .globals (.switch 0 (integerLiteral 7) returningArms) (.initial none) =
      .ok (.returned (.integer 3)) { Store.initial none with heap := ⟨#[[]]⟩ } := rfl
  have hends := (Steady.statement .globals (.switch 0 (integerLiteral 7) returningArms)).ends (n := 4)
    (s := .initial none) (by rintro ⟨⟩)
  obtain ⟨o, ho, halong⟩ := (switch_eq_chain hignores ⟨0, 0⟩ havoids).1.forth _ hends
  rw [hrun] at halong
  cases halong with
  | ok _ hsame => exact ⟨_, ho, congrArg Store.heap hsame⟩

end BlockLang
