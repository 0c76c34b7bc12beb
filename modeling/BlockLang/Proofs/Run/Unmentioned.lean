import BlockLang.Proofs.Run.SpareScopes
import BlockLang.Proofs.Run.Upholding

/-!
# Names that a program does not mention

While a program runs that declares and reads no variable of some name, there is none of that name, and functions that
can be called do not mention it either.  At every moment the scopes of the environment are open, so that a variable of
that name could be defined.

The number of scopes that are open is the same before and after each evaluation.  So it is enough that an environment
has been one of open scopes when the evaluation began.

## Main definitions

- `Store.Ignores`: nothing in a store mentions a name.
- `Omits`: a recorded evaluation at all of whose moments nothing mentions the name.

## Main statement

- `Program.ignores_of_moment`: a run of a program that does not mention the name.
-/

namespace BlockLang

open Stateful

/-! ## §1 Stores -/

/-- A variable of the name can be defined in the environment, and no function mentions the name.  The scopes of the
environment, and those that functions were defined in, are open. -/
structure Store.Ignores (s : Store) (env : Env) (name : String) : Prop where
  env_ne_nil : env ≠ []
  opened : ∀ i ∈ env, i < s.scopes.size
  free : s.cell? ⟨env.headD 0, name⟩ = none
  functions : ∀ i g arity f closure, (s.frame i).findFunction? g arity = some (.defined f (some closure)) →
    f.Avoids name ∧ ∀ j ∈ closure, j < s.scopes.size

/-- So many scopes are open, none of them has a variable of the name, and functions that do not mention the name have
been defined among the globals. -/
structure Store.Lacks (s : Store) (name : String) (k : Nat) : Prop where
  size_eq : s.scopes.size = k
  free : ∀ i, (s.frame i).findVariable? name = none
  functions : ∀ i g arity f closure, (s.frame i).findFunction? g arity = some (.defined f (some closure)) →
    f.Avoids name ∧ closure = .globals

namespace Store.Lacks

variable {s t : Store} {name : String} {k : Nat}

theorem ignores (h : s.Lacks name k) {env : Env} (hne : env ≠ []) (hopen : ∀ i ∈ env, i < k) :
    s.Ignores env name where
  env_ne_nil := hne
  opened := h.size_eq ▸ hopen
  free := (s.cell?_eq _).trans (h.free _)
  functions i g arity f closure hfind := by
    obtain ⟨hf, rfl⟩ := h.functions i g arity f closure hfind
    obtain ⟨i, hi⟩ := List.exists_mem_of_ne_nil env hne
    exact ⟨hf, List.forall_mem_singleton.mpr (h.size_eq ▸ (Nat.zero_le i).trans_lt (hopen i hi))⟩

/-- What is found of a function that is called. -/
theorem found (h : s.Lacks name k) {env closure : Env} {g : String} {arity : Nat} {f : Function}
    (hfind : s.findFunction? env g arity = some (.defined f (some closure))) : f.Avoids name ∧ closure = .globals := by
  rw [Store.findFunction?_eq] at hfind
  obtain ⟨i, -, hi⟩ := List.exists_of_findSome?_eq_some hfind
  exact h.functions i g arity f closure hi

theorem of_scopes (h : s.Lacks name k) (hscopes : t.scopes = s.scopes) : t.Lacks name k := by
  have hframe : ∀ i, t.frame i = s.frame i := by simp [frame, hscopes]
  exact ⟨hscopes ▸ h.size_eq, fun i => hframe i ▸ h.free i, fun i => hframe i ▸ h.functions i⟩

theorem openScope (h : s.Lacks name k) : s.openScope.Lacks name (k + 1) where
  size_eq := by simp [Store.openScope, h.size_eq]
  free i := (frame_openScope s i).symm ▸ h.free i
  functions i := (frame_openScope s i).symm ▸ h.functions i

theorem closeScope (h : s.Lacks name (k + 1)) : s.closeScope.Lacks name k where
  size_eq := by simp [Store.closeScope, h.size_eq]
  free i := by
    rw [frame_closeScope]
    split_ifs
    · exact h.free i
    · rfl
  functions i g arity f closure hfind := by
    rw [frame_closeScope] at hfind
    split_ifs at hfind
    · exact h.functions i g arity f closure hfind
    · cases hfind

theorem setValue (h : s.Lacks name k) (ref : VariableRef) (v : Value) : (s.setValue ref v).Lacks name k where
  size_eq := by simpa [Store.setValue] using h.size_eq
  free i := by
    rw [frame_setValue]
    split_ifs
    · rw [Frame.findVariable?_updateVariable, h.free]
      split_ifs <;> rfl
    · exact h.free i
  functions i g arity f closure hfind := by
    rw [frame_setValue] at hfind
    split_ifs at hfind
    · exact h.functions i g arity f closure hfind
    · exact h.functions i g arity f closure hfind

/-- A frame is changed. -/
theorem withFrame (h : s.Lacks name k) {i : Nat} {f : RunFrame} (hi : i < s.scopes.size)
    (hfree : f.findVariable? name = none)
    (hfunctions : ∀ g arity fn closure, f.findFunction? g arity = some (.defined fn (some closure)) →
      fn.Avoids name ∧ closure = .globals) : (s.withFrame i f).Lacks name k where
  size_eq := by simpa [Store.withFrame] using h.size_eq
  free j := by
    rw [frame_withFrame hi]
    split_ifs
    · exact hfree
    · exact h.free j
  functions j := by
    rw [frame_withFrame hi]
    split_ifs
    · exact hfunctions
    · exact h.functions j

/-- A variable of another name may be defined. -/
theorem defineVariable (h : s.Lacks name k) {ref : VariableRef} {cell : Cell} (hname : ref.name ≠ name)
    (ht : s.defineVariable? ref cell = some t) : t.Lacks name k := by
  rw [defineVariable?_eq] at ht
  split_ifs at ht with hi
  obtain ⟨f, hf, rfl⟩ := Option.map_eq_some_iff.mp ht
  refine h.withFrame hi ?_ fun g arity fn closure hfind => ?_
  · rw [Frame.findVariable?_of_defineVariable? hf, if_neg hname.symm]
    exact h.free ref.scope
  · rw [Frame.findFunction?_of_defineVariable? hf] at hfind
    exact h.functions ref.scope g arity fn closure hfind

/-- A function that does not mention the name may be defined. -/
theorem defineFunction (h : s.Lacks name k) {scope : Nat} {f : Function} (hf : f.Avoids name)
    (ht : s.defineFunction? scope f.name f.arity (.defined f (some .globals)) = some t) : t.Lacks name k := by
  obtain ⟨old, changed, hold, hchanged, rfl⟩ := updateScope?_eq_some.mp ht
  have hframe : s.frame scope = old := by rw [frame, hold, Option.getD_some]
  refine h.withFrame (Array.getElem?_eq_some_iff.mp hold).1 ?_ fun g arity fn closure hfind => ?_
  · rw [Frame.findVariable?_of_defineFunction? hchanged, ← hframe]
    exact h.free scope
  · rw [Frame.findFunction?_of_defineFunction? hchanged, ← hframe] at hfind
    split_ifs at hfind
    · cases hfind
      exact ⟨hf, rfl⟩
    · exact h.functions scope g arity fn closure hfind

/-- Values make no difference. -/
theorem lasting (name : String) (k : Nat) : Store.Lasting (Store.Lacks · name k) where
  setValue ref v h := h.setValue ref v
  setElement _ _ _ h := h.of_scopes rfl
  write _ h := h.of_scopes rfl

/-- Before a run there is the builtin alone. -/
theorem initial (limit : Option Nat) (name : String) : (Store.initial limit).Lacks name 1 where
  size_eq := rfl
  free i := by
    cases i with
    | zero => rfl
    | succ i => rfl
  functions i g arity f closure hfind := by
    cases i with
    | zero =>
      have hbuiltin : builtinFrame.findFunction? g arity = some (.defined f (some closure)) := hfind
      obtain ⟨before, after, hfuns, -⟩ := List.lookup_eq_some_iff.mp hbuiltin
      have hmem : ((g, arity), Callable.defined f (some closure)) ∈ builtinFrame.funs := by simp [hfuns]
      cases List.mem_singleton.mp hmem
    | succ i => cases hfind

end Store.Lacks

/-! ## §2 Recorded evaluations -/

/-- From a store with `k` open scopes that lacks the name, the evaluation comes to such a store however it ends, and at
all its moments the store ignores the name. -/
abbrev Omits {α : Type} (name : String) (k : Nat) (x : Traced α) : Prop :=
  Upholds (Store.Lacks · name k) (fun m => m.store.Ignores m.env name) x

/-- The environment is one of the first `k` scopes. -/
structure Env.Within (env : Env) (k : Nat) : Prop where
  ne_nil : env ≠ []
  lt : ∀ i ∈ env, i < k

theorem Env.Within.inner {env : Env} {k : Nat} (h : env.Within k) : Env.Within (k :: env) (k + 1) :=
  ⟨List.cons_ne_nil _ _, List.forall_mem_cons.mpr ⟨Nat.lt_succ_self k, fun i hi => Nat.lt_succ_of_lt (h.lt i hi)⟩⟩

namespace Omits

variable {α : Type} {name : String} {k : Nat} {env : Env}

theorem note (henv : env.Within k) (event : Event) : Omits name k (Traced.note env event) :=
  Upholds.note fun _ _ h => h.ignores henv.ne_nil henv.lt

theorem watch (henv : env.Within k) {before : Event} {after : α → Event} {x : Traced α} (hx : Omits name k x) :
    Omits name k (Traced.watch env before after x) :=
  Upholds.watch (fun _ _ h => h.ignores henv.ne_nil henv.lt) (fun _ _ _ h => h.ignores henv.ne_nil henv.lt) hx

theorem define (henv : env.Within k) (node : Node) {other : String} (hother : other ≠ name) (cell : Cell) :
    Omits name k (Traced.define env node other cell) :=
  Upholds.define (fun _ _ h ht => h.defineVariable hother ht) fun _ _ h => h.ignores henv.ne_nil henv.lt

/-- In a scope of its own, a body has one more scope. -/
theorem inScope {body : Env → Traced α} (hbody : Omits name (k + 1) (body (k :: env))) :
    Omits name k (Traced.inScope env body) :=
  Upholds.inScope (J := (Store.Lacks · name (k + 1))) (fun _ h => h.openScope) (fun _ h => h.closeScope)
    fun s h => by rwa [h.size_eq]

/-! ### All evaluators -/

/-- With `n` as fuel, evaluations of what does not mention the name do not bring it about. -/
structure Everywhere (name : String) (n : Nat) : Prop where
  expression {k : Nat} {env : Env} : env.Within k → ∀ e, Omits name k (Traced.expression n env e)
  call {k : Nat} {env : Env} : env.Within k → ∀ g arguments offset,
    Omits name k (Traced.call n env g arguments offset)
  statement {k : Nat} {env : Env} : env.Within k → ∀ st : Statement, Avoids name st.locals st.expressions →
    Omits name k (Traced.statement n env st)
  loop {k : Nat} {env : Env} : env.Within k → ∀ condition body,
    Avoids name (blockLocals body) (blockExpressions body) → Omits name k (Traced.loop n env condition body)

namespace Everywhere

variable {n : Nat}

theorem block (h : Everywhere name n) (henv : env.Within k) {body : List Statement}
    (hbody : Avoids name (blockLocals body) (blockExpressions body)) :
    Omits name k (Traced.block (Traced.statement n) env body) :=
  inScope (.inOrder fun st hst => h.statement henv.inner st (hbody.statement st hst))

theorem expression_succ (h : Everywhere name n) (henv : env.Within k) (e : Expr) :
    Omits name k (Traced.expression (n + 1) env e) := by
  apply watch henv
  cases e with
  | literal node value => exact .pure (Value.ofLiteral value)
  | group node inner => exact h.expression henv inner
  | binary node op left right => exact .binary op (h.expression henv left) (h.expression henv right) node.offset
  | «variable» node other => exact .bind (.reads (.resolve env other node.offset)) fun found => .pure _
  | element node other index => exact .element env other (h.expression henv index) node.offset
  | call node g arguments =>
    refine .bind (.all fun e _ => h.expression henv e) fun values => .bind (note henv _) fun _ => ?_
    exact h.call henv g values node.offset
  | list node elements =>
    exact .bind (.all fun e _ => h.expression henv e) fun values => .lift fun s hs => hs.of_scopes rfl

theorem call_succ (h : Everywhere name n) (henv : env.Within k) (g : String) (arguments : List Value) (offset : Nat) :
    Omits name k (Traced.call (n + 1) env g arguments offset) := by
  refine .get_bind fun s hs => ?_
  split
  next which _ => exact .builtin (Store.Lacks.lasting name k) which arguments offset
  next f closure hfind =>
    obtain ⟨hf, rfl⟩ := hs.found hfind
    -- The globals are open wherever anything is.
    have hglobals : Env.globals.Within k := by
      obtain ⟨i, hi⟩ := List.exists_mem_of_ne_nil env henv.ne_nil
      exact ⟨List.cons_ne_nil _ _, List.forall_mem_singleton.mpr ((Nat.zero_le i).trans_lt (henv.lt i hi))⟩
    have hbind := Upholds.bindParameters (fun p hp v => define hglobals.inner p.node (hf.parameters p hp) ⟨true, v⟩)
    refine inScope (.bind (hbind arguments) fun _ => ?_)
    refine .bind (.inOrder fun st hst => h.statement hglobals.inner st (hf.body.statement st hst)) fun flow => ?_
    cases flow <;> exact .pure _
  · exact .fail _
  · exact .fail _

theorem statement_succ (h : Everywhere name n) (henv : env.Within k) (st : Statement)
    (hst : Avoids name st.locals st.expressions) : Omits name k (Traced.statement (n + 1) env st) := by
  apply watch henv
  cases st with
  | expression offset e => exact .bind (.discard (h.expression henv e)) fun _ => .pure Flow.normal
  | declaration node other type value =>
    refine .bind (.optional fun e _ => h.expression henv e) fun v => ?_
    exact .bind (define henv node (hst.names _ List.mem_cons_self) ⟨true, v⟩) fun _ => .pure Flow.normal
  | assignment offset target value =>
    have hassign := Upholds.assign (Store.Lacks.lasting name k) (h.expression henv value) env target
      (fun e _ => h.expression henv e) offset
    exact .bind hassign fun _ => .pure Flow.normal
  | conditional offset condition onTrue onFalse =>
    refine .bind (h.expression henv condition) fun test => .bind (.ofExcept _) fun holds => .ite (.pure Flow.normal) ?_
    apply h.block henv
    cases holds with
    | true => exact hst.tail.left
    | false => exact hst.tail.right
  | switch offset condition cases =>
    refine .bind (h.expression henv condition) fun subject => .select_bind subject
      (P := fun body => Avoids name (blockLocals body) (blockExpressions body))
      (fun c _ e _ => h.expression henv e) (fun c hc => ?_)
      (fun _ hnone => absurd hnone (Option.not_mem_none _)) fun selected hselected => ?_
    · obtain ⟨offset, value, body⟩ := c
      have harm := hst.tail.arm _ hc
      exact ⟨harm.names, fun e he => harm.expressions e (List.mem_append_right _ he)⟩
    · cases selected with
      | none => exact .pure Flow.normal
      | some body => exact h.block henv (hselected body rfl)
  | loop offset condition body => exact h.loop henv condition body hst.tail
  | returning offset value => exact .bind (h.expression henv value) fun v => .pure (Flow.returned v)

theorem loop_succ (h : Everywhere name n) (henv : env.Within k) (condition : Expr) (body : List Statement)
    (hbody : Avoids name (blockLocals body) (blockExpressions body)) :
    Omits name k (Traced.loop (n + 1) env condition body) := by
  refine .bind (h.expression henv condition) fun test => .bind (.ofExcept _) fun holds => .ite ?_ (.pure Flow.normal)
  refine .bind (h.block henv hbody) fun flow => ?_
  cases flow with
  | returned v => exact .pure (Flow.returned v)
  | normal => exact h.loop henv condition body hbody

end Everywhere

theorem everything (name : String) (n : Nat) : Everywhere name n := by
  -- The evaluators call each other with less fuel, and with more scopes open.
  induction n with
  | zero => exact ⟨fun _ _ => .stop _, fun _ _ _ _ => .stop _, fun _ _ _ => .stop _, fun _ _ _ _ => .stop _⟩
  | succ n ih => exact ⟨ih.expression_succ, ih.call_succ, ih.statement_succ, ih.loop_succ⟩

end Omits

/-! ## §3 Programs -/

/-- The program neither declares a variable of the name, nor do its functions read one. -/
structure Program.Avoids (p : Program) (name : String) : Prop where
  globals : ∀ g ∈ p.globals, g.name ≠ name
  functions : ∀ f ∈ p.functions, f.Avoids name

namespace Omits

variable {name : String}

theorem globals (fuel : Nat) {gs : List Global} (hgs : ∀ g ∈ gs, g.name ≠ name) :
    Omits name 1 (Traced.globals fuel gs) := by
  have henv : Env.globals.Within 1 := ⟨List.cons_ne_nil _ _, List.forall_mem_singleton.mpr Nat.one_pos⟩
  induction gs with
  | nil => exact .pure ()
  | cons g rest ih =>
    obtain ⟨hfirst, hrest⟩ := List.forall_mem_cons.mp hgs
    refine .bind (.optional fun e _ => (everything name fuel).expression henv e) fun v => ?_
    exact .bind (define henv g.node hfirst ⟨g.mutable, v⟩) fun _ => ih hrest

theorem program (fuel : Nat) {p : Program} (hp : p.Avoids name) : Omits name 1 (Traced.program fuel p) := by
  have henv : Env.globals.Within 1 := ⟨List.cons_ne_nil _ _, List.forall_mem_singleton.mpr Nat.one_pos⟩
  have hfunctions : Omits name 1 (Traced.lift (Eval.functions p.functions)) :=
    .functions fun f hf _ _ h ht => h.defineFunction (hp.functions f hf) ht
  refine .bind (globals fuel hp.globals) fun _ => .bind hfunctions fun _ => ?_
  exact (everything name fuel).call henv "main" [] (Eval.mainOffset p)

end Omits

/-- At every moment of a run of a program that does not mention the name, nothing in the store does, and the scopes of
the environment are open. -/
theorem Program.ignores_of_moment {p : Program} {name : String} (hp : p.Avoids name) {fuel : Nat} {limit : Option Nat}
    {m : Moment} (hm : m ∈ (p.record fuel limit).moments) : m.store.Ignores m.env name := by
  unfold Program.record at hm
  rw [Traced.final_eq_state] at hm
  obtain ⟨-, later, hlater, hM⟩ := Omits.program fuel hp (.initial limit) (.initial limit name)
  rw [hlater, List.mem_append] at hm
  exact hM m (hm.resolve_right List.not_mem_nil)

end BlockLang
