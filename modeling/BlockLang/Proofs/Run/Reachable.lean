import BlockLang.Proofs.Run.Changes
import BlockLang.Proofs.Run.Erasure
import BlockLang.Run.Session

/-!
# Reachable stores

What a session can be asked to evaluate, the sessions that can come about, and the stores that a run of a program or a
session can come to, also in the middle of an evaluation.  A session may begin with lists that are given to it, each of
which refers only to lists before it; programs need not have been checked.

All reachable stores are regular, since everything a session does goes by changes.

## Main definitions

- `Task`: what can be evaluated.
- `Session.Reachable`, `Store.Reachable`: sessions and stores that can come about.

## Main statement

- `Store.Reachable.regular`: reachable stores are regular.
-/

namespace BlockLang

open Relation Stateful

/-! ## §1 Tasks -/

/-- What a session can be asked to evaluate. -/
inductive Task where
  | expression (e : Expr)
  | statement (s : Statement)
  | block (body : List Statement)
  | call (name : String) (arguments : List Value) (offset : Nat)
  | program (p : Program)

namespace Task

/-- Evaluates a task in an environment; a program is run among the globals. -/
def run (fuel : Nat) (env : Env) : Task → Eval Unit
  | .expression e => discard (Eval.expression fuel env e)
  | .statement s => discard (Eval.statement fuel env s)
  | .block body => discard (Eval.block (Eval.statement fuel) env body)
  | .call name arguments offset => discard (Eval.call fuel env name arguments offset)
  | .program p => discard (Eval.program fuel p)

/-- The recorded evaluation of a task. -/
def trace (fuel : Nat) (env : Env) : Task → Traced Unit
  | .expression e => discard (Traced.expression fuel env e)
  | .statement s => discard (Traced.statement fuel env s)
  | .block body => discard (Traced.block (Traced.statement fuel) env body)
  | .call name arguments offset => discard (Traced.call fuel env name arguments offset)
  | .program p => discard (Traced.program fuel p)

/-- The lists that a task refers to by itself have been created. -/
def Fits (task : Task) (s : Store) : Prop :=
  match task with
  | .call _ arguments _ => ∀ v ∈ arguments, s.Has v
  | .expression _ | .statement _ | .block _ | .program _ => True

theorem erases (fuel : Nat) (env : Env) (task : Task) : Erases (task.trace fuel env) (task.run fuel env) := by
  have hall := Erases.everything fuel
  cases task with
  | expression e => exact .discard (hall.expression env e)
  | statement s => exact .discard (hall.statement env s)
  | block body => exact .discard (.block hall.statement env body)
  | call name arguments offset => exact .discard (hall.call env name arguments offset)
  | program p => exact .discard (.program fuel p)

theorem proceeds (fuel : Nat) (env : Env) {task : Task} {s : Store} (h : task.Fits s) :
    Proceeds s (task.trace fuel env) fun _ _ => True := by
  have hall := Proceeds.everything fuel
  cases task with
  | expression e => exact .discard (hall.expression env s e)
  | statement st => exact .discard (hall.statement env s st)
  | block body => exact .discard (.block hall.statement env body)
  | call name arguments offset => exact .discard (hall.call env name arguments offset h)
  | program p => exact .discard (.program fuel p)

end Task

/-! ## §2 Sessions -/

/-- The sessions that can come about. -/
inductive Session.Reachable : Session → Prop where
  /-- A session may begin with lists, each of which refers only to lists before it. -/
  | start (limit : Option Nat) (lists : Array (List Value))
      (hlists : ∀ k, ∀ v ∈ (Heap.mk lists).elements k, v.Below k) :
      Reachable (.start { Store.initial limit with heap := ⟨lists⟩ })
  /-- Further lists may be created from values that exist. -/
  | allocate {s : Session} {vs : List Value} (h : Reachable s) (hvs : ∀ v ∈ vs, s.store.Has v) :
      Reachable { s with store := (s.store.allocate vs).2 }
  | evaluate {s : Session} {task : Task} (h : Reachable s) (fuel : Nat) (htask : task.Fits s.store) :
      Reachable (s.evaluate fun env => task.run fuel env).2
  | push {s : Session} (h : Reachable s) : Reachable s.push
  | pop {s : Session} (h : Reachable s) : Reachable s.pop
  | defineVariable {s : Session} (h : Reachable s) (name : String) {cell : Cell} (hcell : s.store.Has cell.value) :
      Reachable (s.defineVariable name cell).2
  | defineBuiltin {s : Session} (h : Reachable s) (name : String) (arity : Nat) (which : Builtin) :
      Reachable (s.defineBuiltin name arity which).2
  | defineFunction {s : Session} (h : Reachable s) (f : Function) (closed : Bool) :
      Reachable (s.defineFunction f closed).2
  | setVariable {s : Session} (h : Reachable s) (name : String) {v : Value} (hv : s.store.Has v) :
      Reachable (s.setVariable name v).2

/-- The stores that a run of a program or a session can come to. -/
inductive Store.Reachable : Store → Prop where
  /-- At a moment of a run of a program. -/
  | run (p : Program) (fuel : Nat) (limit : Option Nat) {m : Moment} (hm : m ∈ (p.record fuel limit).moments) :
      Reachable m.store
  /-- At the end of a run of a program. -/
  | ended (p : Program) (fuel : Nat) (limit : Option Nat) : Reachable (p.record fuel limit).store
  /-- Between two evaluations of a session. -/
  | session {s : Session} (h : s.Reachable) : Reachable s.store
  /-- At a moment of an evaluation in a session. -/
  | during {s : Session} (h : s.Reachable) {task : Task} (htask : task.Fits s.store) (fuel : Nat) (origins : Origins)
      {m : Moment} (hm : m ∈ (Traced.final (task.trace fuel s.env ⟨s.store, origins, []⟩)).moments) :
      Reachable m.store

/-! ## §3 Regularity -/

namespace Proceeds

variable {α : Type} {s : Store} {x : Traced α} {y : Eval α} {Q : α → Store → Prop}

/-- However a recorded evaluation ends, it goes by changes. -/
theorem advances_final (h : Proceeds s x Q) (hs : s.Regular) (o : Origins) :
    Recorder.Advances ⟨s, o, []⟩ (Traced.final (x ⟨s, o, []⟩)) := by
  have hrun := h hs ⟨s, o, []⟩ rfl
  cases heq : x ⟨s, o, []⟩ with
  | ok a r =>
    rw [heq] at hrun
    exact hrun.1
  | error e r =>
    rw [heq] at hrun
    exact hrun

/-- What a recorded evaluation does, the evaluation does. -/
theorem of_erases (h : Proceeds s x Q) (hs : s.Regular) (herases : Erases x y) :
    match y s with
    | .ok a t => s.Changes t ∧ Q a t
    | .error _ t => s.Changes t := by
  have hrun := h hs ⟨s, #[], []⟩ rfl
  rw [← herases ⟨s, #[], []⟩]
  cases heq : x ⟨s, #[], []⟩ with
  | ok a r =>
    rw [heq] at hrun
    exact ⟨hrun.1.store, hrun.2⟩
  | error e r =>
    rw [heq] at hrun
    exact hrun.store

end Proceeds

namespace Session

variable {s : Session}

/-- Evaluating a task changes the store only by changes. -/
theorem changes_evaluate (hs : s.store.Regular) {task : Task} (fuel : Nat) (htask : task.Fits s.store) :
    s.store.Changes (s.evaluate fun env => task.run fuel env).2.store := by
  have hrun := (Task.proceeds fuel s.env htask).of_erases hs (task.erases fuel s.env)
  unfold evaluate
  simp only
  cases heq : task.run fuel s.env s.store with
  | ok a t =>
    rw [heq] at hrun
    exact hrun.1
  | error e t =>
    rw [heq] at hrun
    exact hrun

theorem changes_change {store? : Option Store} (h : ∀ t, store? = some t → s.store.Changes t) :
    s.store.Changes (s.change store?).2.store := by
  cases store? with
  | none => exact .refl
  | some t => exact h t rfl

theorem changes_pop : s.store.Changes s.pop.store := by
  unfold pop
  split
  · exact .tail (.single .closeScope) (.forget _)
  · exact .refl

/-- The store of a session is regular. -/
theorem Reachable.regular (h : s.Reachable) : s.store.Regular := by
  -- Everything but the beginning is a sequence of changes.
  induction h with
  | start limit lists hlists =>
    have hinitial := Store.Regular.initial limit
    refine ⟨.of_earlier hlists, fun scope frame hframe x hx => ?_⟩
    exact (hinitial.cells scope frame hframe x hx).mono (Nat.zero_le _)
  | allocate _ hvs ih => exact (Store.Changes.regular (.single (.allocate hvs)) ih).1
  | evaluate _ fuel htask ih => exact ((changes_evaluate ih fuel htask).regular ih).1
  | push _ ih => exact (Store.Changes.regular (.single .openScope) ih).1
  | pop _ ih => exact (changes_pop.regular ih).1
  | defineVariable _ name hcell ih =>
    exact ((changes_change fun t ht => .single (.defineVariable hcell ht)).regular ih).1
  | defineBuiltin _ name arity which ih =>
    exact ((changes_change fun t ht => .single (.defineFunction ht)).regular ih).1
  | defineFunction _ f closed ih =>
    exact ((changes_change fun t ht => .single (.defineFunction ht)).regular ih).1
  | setVariable _ name hv ih =>
    refine ((changes_change fun t ht => ?_).regular ih).1
    obtain ⟨found, -, rfl⟩ := Option.map_eq_some_iff.mp ht
    exact .single (.setValue _ hv)

end Session

/-- Every reachable store is regular. -/
theorem Store.Reachable.regular {s : Store} (h : s.Reachable) : s.Regular := by
  cases h with
  | run p fuel limit hm =>
    have hinitial := Store.Regular.initial limit
    have hadvances := (Proceeds.program fuel p).advances_final hinitial #[[]]
    rcases hadvances.moments _ hm with hm | ⟨hchanges, -⟩
    · cases hm
    · exact (hchanges.regular hinitial).1
  | ended p fuel limit =>
    have hinitial := Store.Regular.initial limit
    exact (((Proceeds.program fuel p).advances_final hinitial #[[]]).store.regular hinitial).1
  | session h => exact h.regular
  | during h htask fuel origins hm =>
    rcases ((Task.proceeds fuel _ htask).advances_final h.regular origins).moments _ hm with hm | ⟨hchanges, -⟩
    · cases hm
    · exact (hchanges.regular h.regular).1

/-- At every moment of a run, the value that it is about has been created. -/
theorem Program.fits_of_moment {p : Program} {fuel : Nat} {limit : Option Nat} {m : Moment}
    (hm : m ∈ (p.record fuel limit).moments) : m.event.Fits m.store := by
  have hadvances := (Proceeds.program fuel p).advances_final (.initial limit) #[[]]
  obtain hnone | ⟨-, hfits⟩ := hadvances.moments m hm
  · cases hnone
  · exact hfits

end BlockLang
