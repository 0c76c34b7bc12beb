import BlockLang.Proofs.Java.Image
import BlockLang.Proofs.Run.Changes
import BlockLang.Proofs.Run.Truncation

/-!
# Properties that evaluations uphold

A recorded evaluation upholds a property of stores if it comes from such stores to such stores only, however it ends.
At the moments that it adds, the store has the property, so what follows of these moments is upheld along with it.
Sequences uphold what their parts do; so do steps that only read the store.  A property that says nothing of values is
kept by everything that is stored or printed, and each evaluator has just to be told what happens to names.

## Main definitions

- `Upholds`: an evaluation upholds a property of stores, and its new moments have another one.
- `Store.Lasting`: what is stored or printed makes no difference to a property of stores.
-/

namespace BlockLang

open Stateful

/-- From a store with one property, the evaluation comes to such a store however it ends, and all the moments that it
adds have the other property. -/
def Upholds {α : Type} (I : Store → Prop) (M : Moment → Prop) (x : Traced α) : Prop :=
  ∀ r, I r.store → I (state (x r)).store ∧
    ∃ later, (state (x r)).moments = later ++ r.moments ∧ ∀ m ∈ later, M m

/-- What is stored or printed makes no difference to the property. -/
structure Store.Lasting (I : Store → Prop) : Prop where
  setValue {s : Store} (ref : VariableRef) (v : Value) : I s → I (s.setValue ref v)
  setElement {s : Store} (l : ListRef) (i : Nat) (v : Value) : I s → I (s.setElement l i v)
  write {s : Store} (text : String) : I s → I { s with sink := (s.sink.write text).2 }

namespace Upholds

variable {α β : Type} {I : Store → Prop} {M : Moment → Prop} {x x' : Traced α} {env : Env}

/-! ## §1 Putting evaluations together -/

theorem pure (a : α) : Upholds I M (pure a) :=
  fun _ h => ⟨h, [], rfl, List.forall_mem_nil _⟩

theorem stop (e : Stop) : Upholds I M (throw e : Traced α) :=
  fun _ h => ⟨h, [], rfl, List.forall_mem_nil _⟩

theorem bind {f : α → Traced β} (hx : Upholds I M x) (hf : ∀ a, Upholds I M (f a)) : Upholds I M (x >>= f) := by
  intro r h
  obtain ⟨hstore, later, hlater, hM⟩ := hx r h
  cases hrun : x r with
  | error e r' =>
    rw [hrun] at hstore hlater
    rw [bind_of_error hrun]
    exact ⟨hstore, later, hlater, hM⟩
  | ok a r' =>
    rw [hrun] at hstore hlater
    rw [bind_of_ok hrun]
    obtain ⟨hstore', later', hlater', hM'⟩ := hf a r' hstore
    -- The moments of the second part come on top of those of the first one.
    have hmoments : r'.moments = later ++ r.moments := hlater
    exact ⟨hstore', later' ++ later, by rw [hlater', hmoments, List.append_assoc],
      List.forall_mem_append.mpr ⟨hM', hM⟩⟩

theorem discard (hx : Upholds I M x) : Upholds I M (discard x) :=
  bind hx fun _ => pure ()

theorem ite {c : Prop} [Decidable c] (hx : Upholds I M x) (hx' : Upholds I M x') :
    Upholds I M (if c then x else x') := by
  split
  · exact hx
  · exact hx'

/-! ## §2 Single steps -/

/-- A step that records nothing. -/
theorem lift {x : Eval α} (hx : ∀ s, I s → I (state (x s))) : Upholds I M (Traced.lift x) := by
  intro r h
  rw [Traced.lift_eq, state_relabel]
  exact ⟨hx r.store h, [], rfl, List.forall_mem_nil _⟩

/-- A step that changes nothing. -/
theorem reads {x : Eval α} (hx : Eval.Reads x) : Upholds I M (Traced.lift x) :=
  lift fun s h => (hx s).symm ▸ h

/-- What is read from the store may be anything that a store with the property has. -/
theorem get_bind {f : Store → Traced α} (hf : ∀ s, I s → Upholds I M (f s)) :
    Upholds I M (Traced.lift get >>= f) :=
  fun r h => hf r.store h r h

theorem ofExcept (result : Except RunError α) : Upholds I M (Traced.lift (Eval.ofExcept result)) :=
  reads (.ofExcept result)

theorem fail (e : RunError) : Upholds I M (Traced.lift (Eval.fail e : Eval α)) :=
  reads (.fail e)

theorem note {event : Event} (hM : ∀ s o, I s → M ⟨env, s, o, event⟩) : Upholds I M (Traced.note env event) :=
  fun r h => ⟨h, [⟨env, r.store, r.origins, event⟩], rfl, List.forall_mem_singleton.mpr (hM r.store r.origins h)⟩

theorem watch {before : Event} {after : α → Event} (hbefore : ∀ s o, I s → M ⟨env, s, o, before⟩)
    (hafter : ∀ a s o, I s → M ⟨env, s, o, after a⟩) (hx : Upholds I M x) :
    Upholds I M (Traced.watch env before after x) :=
  bind (note hbefore) fun _ => bind hx fun a => bind (note (hafter a)) fun _ => pure a

theorem define {node : Node} {name : String} {cell : Cell}
    (hdefine : ∀ s t, I s → s.defineVariable? ⟨env.headD 0, name⟩ cell = some t → I t)
    (hM : ∀ s o, I s → M ⟨env, s, o, .declares node name⟩) : Upholds I M (Traced.define env node name cell) := by
  refine bind (lift fun s h => ?_) fun _ => bind (fun r h => ⟨h, [], rfl, List.forall_mem_nil _⟩) fun _ => note hM
  rw [Eval.define, Stateful.get_bind]
  cases ht : s.defineVariable? ⟨env.headD 0, name⟩ cell with
  | none => exact h
  | some t => exact hdefine s t h ht

theorem functions {fs : List Function} (hdefine : ∀ f ∈ fs, ∀ s t, I s →
      s.defineFunction? 0 f.name f.arity (.defined f (some .globals)) = some t → I t) :
    Upholds I M (Traced.lift (Eval.functions fs)) := by
  induction fs with
  | nil => exact pure ()
  | cons f rest ih =>
    obtain ⟨hfirst, hrest⟩ := List.forall_mem_cons.mp hdefine
    unfold Eval.functions
    rw [Traced.lift_bind]
    refine bind (lift fun s h => ?_) fun _ => ih hrest
    rw [Eval.defineFunction, Stateful.get_bind]
    cases ht : s.defineFunction? 0 f.name f.arity (.defined f (some .globals)) with
    | none => exact h
    | some t => exact hfirst s t h ht

theorem builtin (hI : Store.Lasting I) (which : Builtin) (arguments : List Value) (offset : Nat) :
    Upholds I M (Traced.lift (Eval.builtin which arguments offset)) := by
  unfold Eval.builtin
  split
  · rw [Traced.lift_bind]
    refine get_bind fun s h => ?_
    rw [Traced.lift_bind]
    refine bind (lift fun s h => ?_) fun _ => pure Value.nil
    rw [Eval.write_eq]
    split <;> exact hI.write _ h
  · exact fail _

/-- Inside a scope of its own, a body may uphold a property of stores with one more scope. -/
theorem inScope {J : Store → Prop} {body : Env → Traced α} (hopen : ∀ s, I s → J s.openScope)
    (hclose : ∀ s, J s → I s.closeScope) (hbody : ∀ s, I s → Upholds J M (body (s.scopes.size :: env))) :
    Upholds I M (Traced.inScope env body) := by
  intro r h
  obtain ⟨hstore, later, hlater, hM⟩ := hbody r.store h r.openScope (hopen r.store h)
  -- Closing the scope records nothing.
  rw [Traced.inScope_eq, state_relabel]
  exact ⟨hclose _ hstore, later, hlater, hM⟩

/-! ## §3 Expressions and assignments -/

section

variable {eval : Expr → Traced Value}

theorem all {es : List Expr} (heval : ∀ e ∈ es, Upholds I M (eval e)) : Upholds I M (Traced.all eval es) := by
  induction es with
  | nil => exact pure []
  | cons e rest ih =>
    obtain ⟨hfirst, hrest⟩ := List.forall_mem_cons.mp heval
    exact bind hfirst fun v => bind (ih hrest) fun vs => pure (v :: vs)

theorem optional {value : Option Expr} (heval : ∀ e ∈ value, Upholds I M (eval e)) :
    Upholds I M (Traced.optional eval value) := by
  cases value with
  | none => exact pure Value.nil
  | some e => exact heval e rfl

theorem binary {left right : Expr} (op : Operator) (hleft : Upholds I M (eval left))
    (hright : Upholds I M (eval right)) (offset : Nat) : Upholds I M (Traced.binary eval op left right offset) := by
  refine bind hleft fun l => ite ?_ ?_
  · exact bind (ofExcept _) fun decided => ite (pure l) (bind hright fun r => ofExcept _)
  · exact bind hright fun r => get_bind fun s h => ofExcept _

theorem element {index : Expr} (env : Env) (name : String) (hindex : Upholds I M (eval index)) (offset : Nat) :
    Upholds I M (Traced.element eval env name index offset) := by
  refine bind (reads (.resolve env name offset)) fun found => bind hindex fun position => ?_
  refine bind (reads (.valueOf found.1)) fun held => bind (ofExcept _) fun list => get_bind fun s h => ?_
  exact bind (ofExcept _) fun n => bind (ofExcept _) fun i => pure _

variable {value : Expr} (hI : Store.Lasting I) (hvalue : Upholds I M (eval value))

include hI hvalue

theorem storeElement {index : Expr} (ref : VariableRef) (hindex : Upholds I M (eval index)) (receiver : Expr)
    (offset : Nat) : Upholds I M (Traced.storeElement eval ref index value receiver offset) := by
  refine bind hindex fun position => bind hvalue fun v => bind (reads (.valueOf ref)) fun held => ?_
  refine bind (ofExcept _) fun list => get_bind fun s h => ite (fail _) ?_
  exact bind (ofExcept _) fun n => bind (ofExcept _) fun i => lift fun t ht => hI.setElement list i v ht

/-- Of the receiver, at most its index is evaluated. -/
theorem assign (env : Env) (target : Expr) (hindex : ∀ e ∈ target.children, Upholds I M (eval e)) (offset : Nat) :
    Upholds I M (Traced.assign eval env target value offset) := by
  cases target with
  | «variable» node name =>
    refine bind (reads (.receiver env name node.offset offset)) fun ref => bind hvalue fun v => ?_
    exact lift fun s h => hI.setValue ref v h
  | element node name index =>
    refine bind (reads (.receiver env name node.offset offset)) fun ref => ?_
    exact storeElement hI hvalue ref (hindex index (List.mem_singleton_self index)) _ offset
  | literal | group | binary | call | list => exact fail _

end

/-! ## §4 Statements -/

/-- What holds of the statements of all arms holds of those selected. -/
theorem select_bind {eval : Expr → Traced Value} {f : Option (List Statement) → Traced α} {P : List Statement → Prop}
    (subject : Value) {cases : List Case} (hvalues : ∀ c ∈ cases, ∀ e ∈ c.value, Upholds I M (eval e))
    (hcases : ∀ c ∈ cases, P c.body) {fallback : Option (List Statement)} (hfallback : ∀ body ∈ fallback, P body)
    (hf : ∀ selected, (∀ body ∈ selected, P body) → Upholds I M (f selected)) :
    Upholds I M (Traced.select eval subject fallback cases >>= f) := by
  induction cases generalizing fallback with
  | nil => exact hf fallback hfallback
  | cons arm rest ih =>
    obtain ⟨offset, value, body⟩ := arm
    obtain ⟨hvalue, hlater⟩ := List.forall_mem_cons.mp hvalues
    obtain ⟨hbody, hrest⟩ := List.forall_mem_cons.mp hcases
    cases value with
    -- A default arm is kept for the case that no later arm has the value.
    | none => exact ih hlater hrest (forall_mem_or_some hfallback hbody)
    | some value =>
      simp only [Traced.select, bind_assoc]
      refine bind (hvalue value rfl) fun v => get_bind fun s h => ?_
      split
      · exact hf (some body) fun other hother => Option.some.inj hother ▸ hbody
      · exact ih hlater hrest hfallback

theorem inOrder {exec : Statement → Traced Flow} {body : List Statement}
    (hexec : ∀ st ∈ body, Upholds I M (exec st)) : Upholds I M (Traced.inOrder exec body) := by
  induction body with
  | nil => exact pure Flow.normal
  | cons first rest ih =>
    obtain ⟨hfirst, hrest⟩ := List.forall_mem_cons.mp hexec
    refine bind hfirst fun flow => ?_
    cases flow with
    | returned v => exact pure (Flow.returned v)
    | normal => exact ih hrest

theorem bindParameters {ps : List Parameter}
    (hdefine : ∀ p ∈ ps, ∀ v, Upholds I M (Traced.define env p.node p.name ⟨true, v⟩)) (values : List Value) :
    Upholds I M (Traced.bindParameters env ps values) := by
  induction ps generalizing values with
  | nil => exact pure ()
  | cons p rest ih =>
    obtain ⟨hfirst, hrest⟩ := List.forall_mem_cons.mp hdefine
    cases values with
    | nil => exact pure ()
    | cons v values => exact bind (hfirst v) fun _ => ih hrest values

end Upholds

end BlockLang
