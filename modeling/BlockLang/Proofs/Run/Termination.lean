import BlockLang.Proofs.Run.Checked
import BlockLang.Proofs.Run.Changes
import BlockLang.Proofs.Typing.Order
import Mathlib

/-!
# Termination

A checked program without loops in which no function calls itself ends.  Functions cannot call each other in a circle
either, since every call selects the builtin or a function that was defined before the one it stands in: the place of
the callee among the functions decreases with every call, and between calls the evaluators follow the tree.

An evaluation with more and more fuel settles if its outcome stays the same from some amount of fuel on and is not that
the fuel is used up.  Sequences of evaluations that settle do so too.  What the calls select at runtime is told by the
store alone: every function that can be found in it is the builtin or a function of the program, under its own name and
number of parameters.

## Main definitions

- `Store.Knows`: the functions that can be found in a store.
- `Settles`: an evaluation that ends with enough fuel.
- `ResolvesBefore`: a call selects the builtin or a function defined before.

## Main statement

- `checked_run_ends`: a run of a checked program without loops and without direct recursion ends.
-/

namespace BlockLang

open Stateful

/-! ## §1 Stores and functions -/

/-- Every function that can be found in the store is a builtin or one of the given functions. -/
def Store.Knows (fs : List Function) (s : Store) : Prop :=
  ∀ (scope : Nat) (frame : RunFrame), s.scopes[scope]? = some frame → ∀ x ∈ frame.funs,
    (∃ which, x.2 = .builtin which) ∨ ∃ f ∈ fs, x.1 = f.key ∧ ∃ closure, x.2 = .defined f closure

namespace Store.Knows

variable {fs : List Function} {s t : Store}

/-- What a name and a number of arguments select is a builtin or a function that is known by them. -/
theorem found (h : s.Knows fs) {env : Env} {name : String} {arity : Nat} {c : Callable}
    (hfind : s.findFunction? env name arity = some c) :
    (∃ which, c = .builtin which) ∨ ∃ f ∈ fs, f.name = name ∧ f.arity = arity ∧ ∃ closure, c = .defined f closure := by
  obtain hbuiltin | ⟨f, hf, hkey, hc⟩ := AllFrames.of_findFunction? h hfind
  · exact .inl hbuiltin
  · obtain ⟨rfl, rfl⟩ := Prod.mk.inj hkey
    exact .inr ⟨f, hf, rfl, rfl, hc⟩

theorem openScope (h : s.Knows fs) : s.openScope.Knows fs :=
  AllFrames.openScope h (List.forall_mem_nil _)

theorem closeScope (h : s.Knows fs) : s.closeScope.Knows fs :=
  AllFrames.closeScope h

theorem setValue (h : s.Knows fs) (ref : VariableRef) (v : Value) : (s.setValue ref v).Knows fs :=
  AllFrames.setValue h fun _ hold => hold

theorem defineVariable (h : s.Knows fs) {ref : VariableRef} {cell : Cell} (ht : s.defineVariable? ref cell = some t) :
    t.Knows fs := by
  refine AllFrames.updateScope h (fun frame changed hchanged hold => ?_) ht
  obtain ⟨-, rfl⟩ := Frame.defineVariable?_eq_some.mp hchanged
  exact hold

theorem defineFunction (h : s.Knows fs) {scope : Nat} {f : Function} {closure : Option Env} (hf : f ∈ fs)
    (ht : s.defineFunction? scope f.name f.arity (.defined f closure) = some t) : t.Knows fs := by
  refine AllFrames.updateScope h (fun frame changed hchanged hold => ?_) ht
  obtain ⟨-, rfl⟩ := Frame.defineFunction?_eq_some.mp hchanged
  exact List.forall_mem_cons.mpr ⟨.inr ⟨f, hf, rfl, closure, rfl⟩, hold⟩

/-- Before a run there is the builtin alone. -/
theorem initial (fs : List Function) (limit : Option Nat) : (Store.initial limit).Knows fs :=
  AllFrames.initial (List.forall_mem_singleton.mpr (.inl ⟨.print, rfl⟩)) limit

end Store.Knows

/-! ## §2 Evaluations that settle -/

/-- The result of an evaluation that ends, in a store with the given functions. -/
structure Ended {α : Type} (fs : List Function) (result : EStateM.Result Stop Store α) : Prop where
  knows : (state result).Knows fs
  fuel : ∀ s, result ≠ .error .outOfFuel s

/-- With enough fuel, an evaluation from any store with the given functions ends, and more fuel does not matter. -/
def Settles {α : Type} (fs : List Function) (x : Nat → Eval α) : Prop :=
  ∀ s : Store, s.Knows fs → ∃ enough result, (∀ n, enough ≤ n → x n s = result) ∧ Ended fs result

namespace Settles

variable {α β : Type} {fs : List Function} {x : Nat → Eval α} {f : Nat → α → Eval β}

/-! ### Single steps -/

/-- What needs no fuel settles at once. -/
theorem steady {x : Eval α} (h : ∀ s : Store, s.Knows fs → Ended fs (x s)) : Settles fs fun _ => x :=
  fun s hs => ⟨0, x s, fun _ _ => rfl, h s hs⟩

theorem pure (a : α) : Settles fs fun _ => pure a :=
  steady fun _ hs => ⟨hs, nofun⟩

theorem fail (e : RunError) : Settles fs fun _ => (Eval.fail e : Eval α) :=
  steady fun _ hs => ⟨hs, nofun⟩

theorem ofExcept (x : Except RunError α) : Settles fs fun _ => Eval.ofExcept x := by
  cases x with
  | ok a => exact pure a
  | error e => exact fail e

/-- The store may be changed if the functions stay. -/
theorem modify {change : Store → Store} (h : ∀ s : Store, s.Knows fs → (change s).Knows fs) :
    Settles fs fun _ => (modify change : Eval Unit) :=
  steady fun s hs => ⟨h s hs, nofun⟩

/-- The first step of an evaluation may need one unit of fuel. -/
theorem succ (h : Settles fs fun n => x (n + 1)) : Settles fs x := by
  intro s hs
  obtain ⟨enough, result, hresult, hended⟩ := h s hs
  refine ⟨enough + 1, result, fun n hn => ?_, hended⟩
  obtain ⟨m, rfl⟩ := Nat.exists_eq_add_of_le' hn
  rw [← Nat.add_assoc]
  exact hresult (m + enough) (Nat.le_add_left _ _)

/-- The second part has to settle only for what the first one can yield. -/
theorem bind (hx : Settles fs x) (hf : ∀ a, (∃ n s t, x n s = .ok a t) → Settles fs fun n => f n a) :
    Settles fs fun n => x n >>= f n := by
  intro s hs
  obtain ⟨enough, result, hresult, hended⟩ := hx s hs
  cases result with
  | error e t =>
    exact ⟨enough, .error e t, fun n hn => bind_of_error (hresult n hn), hended.knows, fun u hu => by
      cases hu
      exact hended.fuel t rfl⟩
  | ok a t =>
    obtain ⟨enough', result', hresult', hended'⟩ := hf a ⟨enough, s, t, hresult enough le_rfl⟩ t hended.knows
    refine ⟨max enough enough', result', fun n hn => ?_, hended'⟩
    have hfirst := hresult n ((Nat.le_max_left _ _).trans hn)
    exact (bind_of_ok hfirst).trans (hresult' n ((Nat.le_max_right _ _).trans hn))

/-- The store that is looked at has the given functions. -/
theorem get {f : Nat → Store → Eval β} (hf : ∀ s : Store, s.Knows fs → Settles fs fun n => f n s) :
    Settles fs fun n => get >>= f n :=
  fun s hs => hf s hs s hs

theorem ite {c : Prop} [Decidable c] {x' : Nat → Eval α} (hx : Settles fs x) (hx' : Settles fs x') :
    Settles fs fun n => if c then x n else x' n := by
  by_cases hc : c
  · simp only [if_pos hc]
    exact hx
  · simp only [if_neg hc]
    exact hx'

theorem discard (hx : Settles fs x) : Settles fs fun n => discard (x n) :=
  bind hx fun _ _ => pure ()

theorem resolve (env : Env) (name : String) (offset : Nat) : Settles fs fun _ => Eval.resolve env name offset := by
  refine get fun s _ => ?_
  cases s.findVariable? env name with
  | none => exact fail _
  | some found => exact pure found

theorem valueOf (ref : VariableRef) : Settles fs fun _ => Eval.valueOf ref :=
  get fun s _ => pure (s.valueOf ref)

theorem receiver (env : Env) (name : String) (nameOffset offset : Nat) :
    Settles fs fun _ => Eval.receiver env name nameOffset offset :=
  bind (resolve env name nameOffset) fun found _ => ite (pure found.1) (fail _)

theorem define (env : Env) (name : String) (cell : Cell) (offset : Nat) :
    Settles fs fun _ => Eval.define env name cell offset := by
  refine steady fun s hs => ?_
  unfold Eval.define
  rw [get_bind]
  cases hdefine : s.defineVariable? ⟨env.headD 0, name⟩ cell with
  | none => exact ⟨hs, nofun⟩
  | some t => exact ⟨hs.defineVariable hdefine, nofun⟩

theorem newList (elements : List Value) : Settles fs fun _ => Eval.newList elements :=
  steady fun _ hs => ⟨hs, nofun⟩

theorem builtin (which : Builtin) (arguments : List Value) (offset : Nat) :
    Settles fs fun _ => Eval.builtin which arguments offset := by
  cases which with
  | print =>
    match arguments with
    | [] => exact fail _
    | [v] =>
      refine get fun s _ => bind (steady fun s hs => ?_) fun _ _ => pure Value.nil
      rw [Eval.write_eq]
      split
      · exact ⟨hs, nofun⟩
      · exact ⟨hs, nofun⟩
    | _ :: _ :: _ => exact fail _

theorem inScope {env : Env} {body : Nat → Env → Eval α} (hbody : ∀ inner, Settles fs fun n => body n inner) :
    Settles fs fun n => Eval.inScope env (body n) := by
  intro s hs
  obtain ⟨enough, result, hresult, hended⟩ := hbody (s.scopes.size :: env) s.openScope hs.openScope
  refine ⟨enough, relabel id id Store.closeScope result, fun n hn => ?_, ?_, ?_⟩
  · have hrun : body n (s.scopes.size :: env) s.openScope = result := hresult n hn
    change Eval.inScope env (body n) s = _
    unfold Eval.inScope
    rw [hrun]
    cases result <;> rfl
  · rw [state_relabel]
    exact hended.knows.closeScope
  · intro t ht
    cases result with
    | ok a u => cases ht
    | error e u =>
      cases ht
      exact hended.fuel u rfl

theorem bindParameters (env : Env) (ps : List Parameter) (values : List Value) :
    Settles fs fun _ => Eval.bindParameters env ps values := by
  induction ps generalizing values with
  | nil => exact pure ()
  | cons p rest ih =>
    cases values with
    | nil => exact pure ()
    | cons v values => exact bind (define env p.name ⟨true, v⟩ p.node.offset) fun _ _ => ih values

/-! ### Sequences -/

section

variable {eval : Nat → Expr → Eval Value}

theorem all {es : List Expr} (heval : ∀ e ∈ es, Settles fs fun n => eval n e) :
    Settles fs fun n => Eval.all (eval n) es := by
  induction es with
  | nil => exact pure []
  | cons e rest ih =>
    obtain ⟨hfirst, hrest⟩ := List.forall_mem_cons.mp heval
    exact bind hfirst fun v _ => bind (ih hrest) fun vs _ => pure (v :: vs)

theorem optional {value : Option Expr} (heval : ∀ e ∈ value.toList, Settles fs fun n => eval n e) :
    Settles fs fun n => Eval.optional (eval n) value := by
  cases value with
  | none => exact pure Value.nil
  | some e => exact heval e List.mem_cons_self

theorem binary {op : Operator} {left right : Expr} {offset : Nat} (hleft : Settles fs fun n => eval n left)
    (hright : Settles fs fun n => eval n right) : Settles fs fun n => Eval.binary (eval n) op left right offset := by
  refine bind hleft fun l _ => ite ?_ ?_
  · refine bind (ofExcept _) fun decided _ => ite (pure l) ?_
    exact bind hright fun r _ => ofExcept _
  · exact bind hright fun r _ => get fun s _ => ofExcept _

theorem element {env : Env} {name : String} {index : Expr} {offset : Nat} (hindex : Settles fs fun n => eval n index) :
    Settles fs fun n => Eval.element (eval n) env name index offset := by
  refine bind (resolve env name offset) fun found _ => bind hindex fun position _ => ?_
  refine bind (valueOf found.1) fun held _ => bind (ofExcept _) fun list _ => get fun s _ => ?_
  exact bind (ofExcept _) fun i _ => bind (ofExcept _) fun i _ => pure _

theorem storeElement {ref : VariableRef} {index value receiver : Expr} {offset : Nat}
    (hindex : Settles fs fun n => eval n index) (hvalue : Settles fs fun n => eval n value) :
    Settles fs fun n => Eval.storeElement (eval n) ref index value receiver offset := by
  refine bind hindex fun position _ => bind hvalue fun v _ => bind (valueOf ref) fun held _ => ?_
  refine bind (ofExcept _) fun list _ => get fun s _ => ite (fail _) ?_
  exact bind (ofExcept _) fun i _ => bind (ofExcept _) fun i _ => modify fun _ hs => hs

/-- The receiver of an assignment is not evaluated itself; if it is an element, its index is. -/
theorem assign {env : Env} {target value : Expr} {offset : Nat} (htarget : ∀ e ∈ target.children, Settles fs fun n =>
    eval n e) (hvalue : Settles fs fun n => eval n value) :
    Settles fs fun n => Eval.assign (eval n) env target value offset := by
  cases target with
  | «variable» node name =>
    refine bind (receiver env name node.offset offset) fun ref _ => bind hvalue fun v _ => ?_
    exact modify fun _ hs => hs.setValue ref v
  | element node name index =>
    refine bind (receiver env name node.offset offset) fun ref _ => ?_
    exact storeElement (htarget index List.mem_cons_self) hvalue
  | literal | group | binary | call | list => exact fail _

/-- The values of arms are evaluated, but not their statements. -/
theorem select {subject : Value} {fallback : Option (List Statement)} {cases : List Case}
    (heval : ∀ arm ∈ cases, ∀ e ∈ arm.value.toList, Settles fs fun n => eval n e) :
    Settles fs fun n => Eval.select (eval n) subject fallback cases := by
  induction cases generalizing fallback with
  | nil => exact pure fallback
  | cons arm rest ih =>
    obtain ⟨hfirst, hrest⟩ := List.forall_mem_cons.mp heval
    obtain ⟨offset, value, body⟩ := arm
    cases value with
    | none => exact ih hrest
    | some value =>
      refine bind (hfirst value List.mem_cons_self) fun v _ => get fun s _ => ?_
      exact ite (pure (some body)) (ih hrest)

end

theorem inOrder {exec : Nat → Statement → Eval Flow} {body : List Statement}
    (hexec : ∀ s ∈ body, Settles fs fun n => exec n s) : Settles fs fun n => Eval.inOrder (exec n) body := by
  induction body with
  | nil => exact pure Flow.normal
  | cons first rest ih =>
    obtain ⟨hfirst, hrest⟩ := List.forall_mem_cons.mp hexec
    apply bind hfirst
    intro flow _
    cases flow with
    | returned v => exact pure (Flow.returned v)
    | normal => exact ih hrest

theorem block {exec : Nat → Env → Statement → Eval Flow} {env : Env} {body : List Statement}
    (hexec : ∀ inner, ∀ s ∈ body, Settles fs fun n => exec n inner s) :
    Settles fs fun n => Eval.block (exec n) env body :=
  inScope fun inner => inOrder (hexec inner)

end Settles

/-! ## §3 Trees -/

/-- All functions of that name and with that many parameters are among the first `k`. -/
def Below (fs : List Function) (k : Nat) (name : String) (arity : Nat) : Prop :=
  ∀ i f, fs[i]? = some f → f.name = name → f.arity = arity → i < k

/-- If the expression is a call, it can only select one of the first `k` functions. -/
def CallsBelow (fs : List Function) (k : Nat) : Expr → Prop
  | .call _ name arguments => Below fs k name arguments.length
  | _ => True

/-- No call in the functions selects the function that it stands in or one behind it. -/
def Descends (fs : List Function) : Prop :=
  ∀ i f, fs[i]? = some f → ∀ x ∈ f.parts, CallsBelow fs i x

mutual

/-- No part of the statement is a loop. -/
def Statement.loopFree : Statement → Bool
  | .conditional _ _ onTrue onFalse => blockLoopFree onTrue && blockLoopFree onFalse
  | .switch _ _ cases => armsLoopFree cases
  | .loop _ _ _ => false
  | .expression _ _ | .declaration _ _ _ _ | .assignment _ _ _ | .returning _ _ => true

/-- No part of the statements is a loop. -/
def blockLoopFree : List Statement → Bool
  | [] => true
  | first :: rest => first.loopFree && blockLoopFree rest

/-- No part of the arm is a loop. -/
def Case.loopFree : Case → Bool
  | .mk _ _ body => blockLoopFree body

/-- No part of the arms is a loop. -/
def armsLoopFree : List Case → Bool
  | [] => true
  | arm :: rest => arm.loopFree && armsLoopFree rest

end

/-- The evaluation of several expressions yields as many values. -/
theorem Eval.length_of_all {eval : Expr → Eval Value} {es : List Expr} {vs : List Value} {s t : Store}
    (h : Eval.all eval es s = .ok vs t) : vs.length = es.length := by
  induction es generalizing vs s with
  | nil =>
    cases h
    rfl
  | cons e rest ih =>
    obtain ⟨v, s₁, -, h₁⟩ := bind_eq_ok.mp h
    obtain ⟨ws, s₂, hrest, h₂⟩ := bind_eq_ok.mp h₁
    cases h₂
    exact congrArg Nat.succ (ih hrest)

/-- What a switch selects are the statements of one of its arms, or those to fall back to. -/
theorem Eval.mem_of_select {eval : Expr → Eval Value} {subject : Value} {fallback : Option (List Statement)}
    {cases : List Case} {body : List Statement} {s t : Store}
    (h : Eval.select eval subject fallback cases s = .ok (some body) t) :
    fallback = some body ∨ ∃ arm ∈ cases, arm.body = body := by
  induction cases generalizing fallback s with
  | nil =>
    cases h
    exact .inl rfl
  | cons arm rest ih =>
    have hlater : ∀ {fallback s}, Eval.select eval subject fallback rest s = .ok (some body) t →
        fallback = some body ∨ ∃ later ∈ arm :: rest, later.body = body := fun h =>
      (ih h).imp_right fun ⟨later, hmem, hbody⟩ => ⟨later, List.mem_cons_of_mem _ hmem, hbody⟩
    obtain ⟨offset, value, statements⟩ := arm
    cases value with
    | none =>
      -- The first default case is the fallback of the later ones.
      obtain hfallback | hmem := hlater h
      · cases fallback with
        | none =>
          cases hfallback
          exact .inr ⟨_, List.mem_cons_self, rfl⟩
        | some earlier => exact .inl hfallback
      · exact .inr hmem
    | some value =>
      obtain ⟨v, s₁, -, h₁⟩ := bind_eq_ok.mp h
      rw [get_bind] at h₁
      split at h₁
      · cases h₁
        exact .inr ⟨_, List.mem_cons_self, rfl⟩
      · exact hlater h₁

/-- The calls that select one of the first `k` functions settle. -/
def CallsSettle (fs : List Function) (k : Nat) : Prop :=
  ∀ env name values offset, Below fs k name values.length → Settles fs fun n => Eval.call n env name values offset

namespace Settles

variable {fs : List Function} {k : Nat}

mutual

/-- An expression settles if the calls in it do. -/
theorem expression (hcall : CallsSettle fs k) (env : Env) : ∀ e : Expr, (∀ x ∈ e.parts, CallsBelow fs k x) →
    Settles fs fun n => Eval.expression n env e
  | .literal _ value, _ => succ (pure (Value.ofLiteral value))
  | .group _ inner, h => succ (expression hcall env inner (List.forall_mem_cons.mp h).2)
  | .binary _ op left right, h => by
    obtain ⟨hleft, hright⟩ := List.forall_mem_append.mp (List.forall_mem_cons.mp h).2
    exact succ (binary (expression hcall env left hleft) (expression hcall env right hright))
  | .variable node name, _ => succ (bind (resolve env name node.offset) fun found _ => pure found.2.value)
  | .element _ name index, h => succ (element (expression hcall env index (List.forall_mem_cons.mp h).2))
  | .call node name arguments, h => by
    obtain ⟨hname, harguments⟩ := List.forall_mem_cons.mp h
    refine succ (bind (all (expressions hcall env arguments harguments)) fun values ⟨n, s, t, hrun⟩ => ?_)
    exact hcall env name values node.offset (Eval.length_of_all hrun ▸ hname)
  | .list _ elements, h => by
    obtain ⟨-, helements⟩ := List.forall_mem_cons.mp h
    exact succ (bind (all (expressions hcall env elements helements)) fun values _ => newList values)

theorem expressions (hcall : CallsSettle fs k) (env : Env) : ∀ es : List Expr,
    (∀ x ∈ Expr.allParts es, CallsBelow fs k x) → ∀ e ∈ es, Settles fs fun n => Eval.expression n env e
  | [], _ => List.forall_mem_nil _
  | e :: rest, h => by
    obtain ⟨hfirst, hrest⟩ := List.forall_mem_append.mp h
    exact List.forall_mem_cons.mpr ⟨expression hcall env e hfirst, expressions hcall env rest hrest⟩

end

mutual

/-- A statement without loops settles if the calls in it do. -/
theorem statement (hcall : CallsSettle fs k) : ∀ st : Statement, st.loopFree = true →
    (∀ e ∈ st.expressions, ∀ x ∈ e.parts, CallsBelow fs k x) → ∀ env, Settles fs fun n => Eval.statement n env st
  | .expression _ e, _, h, env =>
    succ (bind (discard (expression hcall env e (h e List.mem_cons_self))) fun _ _ => pure Flow.normal)
  | .declaration node name _ value, _, h, env => by
    refine succ (bind (optional fun e he => expression hcall env e (h e he)) fun v _ => ?_)
    exact bind (define env name ⟨true, v⟩ node.offset) fun _ _ => pure Flow.normal
  | .assignment offset target value, _, h, env => by
    obtain ⟨htarget, hrest⟩ := List.forall_mem_cons.mp h
    refine succ (bind (assign (fun e he => ?_) ?_) fun _ _ => pure Flow.normal)
    · refine expression hcall env e fun x hx => htarget x ?_
      rw [Expr.parts_eq]
      exact List.mem_cons_of_mem _ (List.mem_flatMap_of_mem he hx)
    · exact expression hcall env value (hrest value List.mem_cons_self)
  | .conditional _ condition onTrue onFalse, hloops, h, env => by
    rw [Statement.loopFree, Bool.and_eq_true] at hloops
    obtain ⟨hcondition, hbranches⟩ := List.forall_mem_cons.mp h
    obtain ⟨htrue, hfalse⟩ := List.forall_mem_append.mp hbranches
    refine succ (bind (expression hcall env condition hcondition) fun test _ => bind (ofExcept _) fun holds _ => ?_)
    refine ite (pure Flow.normal) (block fun inner s hs => ?_)
    cases holds with
    | true => exact statements hcall onTrue hloops.1 htrue s hs inner
    | false => exact statements hcall onFalse hloops.2 hfalse s hs inner
  | .switch _ subject cases, hloops, h, env => by
    obtain ⟨hsubject, hcases⟩ := List.forall_mem_cons.mp h
    have harms := arms hcall cases hloops hcases
    refine succ (bind (expression hcall env subject hsubject) fun v _ => ?_)
    refine bind (select fun arm harm e he => (harms arm harm).1 e he env) fun body ⟨n, s, t, hrun⟩ => ?_
    cases body with
    | none => exact pure Flow.normal
    | some body =>
      obtain hnone | ⟨arm, harm, rfl⟩ := Eval.mem_of_select hrun
      · cases hnone
      · exact block fun inner s hs => (harms arm harm).2 s hs inner
  | .returning _ value, _, h, env =>
    succ (bind (expression hcall env value (h value List.mem_cons_self)) fun v _ => pure (Flow.returned v))

theorem statements (hcall : CallsSettle fs k) : ∀ body : List Statement, blockLoopFree body = true →
    (∀ e ∈ blockExpressions body, ∀ x ∈ e.parts, CallsBelow fs k x) →
    ∀ s ∈ body, ∀ env, Settles fs fun n => Eval.statement n env s
  | [], _, _ => List.forall_mem_nil _
  | first :: rest, hloops, h => by
    rw [blockLoopFree, Bool.and_eq_true] at hloops
    obtain ⟨hfirst, hrest⟩ := List.forall_mem_append.mp h
    exact List.forall_mem_cons.mpr ⟨statement hcall first hloops.1 hfirst, statements hcall rest hloops.2 hrest⟩

theorem arms (hcall : CallsSettle fs k) : ∀ cases : List Case, armsLoopFree cases = true →
    (∀ e ∈ armExpressions cases, ∀ x ∈ e.parts, CallsBelow fs k x) → ∀ arm ∈ cases,
      (∀ e ∈ arm.value.toList, ∀ env, Settles fs fun n => Eval.expression n env e) ∧
        ∀ s ∈ arm.body, ∀ env, Settles fs fun n => Eval.statement n env s
  | [], _, _ => List.forall_mem_nil _
  | .mk _ value body :: rest, hloops, h => by
    rw [armsLoopFree, Case.loopFree, Bool.and_eq_true] at hloops
    obtain ⟨hfirst, hrest⟩ := List.forall_mem_append.mp h
    obtain ⟨hvalue, hbody⟩ := List.forall_mem_append.mp hfirst
    refine List.forall_mem_cons.mpr ⟨⟨fun e he env => expression hcall env e (hvalue e he), ?_⟩,
      arms hcall rest hloops.2 hrest⟩
    exact statements hcall body hloops.1 hbody

end

/-! ## §4 Calls -/

/-- If every call selects only functions before the one it stands in, and there are no loops, all calls settle. -/
theorem call (hloops : ∀ f ∈ fs, blockLoopFree f.body = true) (hdescends : Descends fs) (k : Nat) :
    CallsSettle fs k := by
  -- What is called comes before what calls it, so its own calls have been dealt with.
  induction k using Nat.strong_induction_on with
  | _ k ih =>
    intro env name values offset hbelow
    refine succ (get fun s hs => ?_)
    cases hfind : s.findFunction? env name values.length with
    | none => exact fail _
    | some c =>
      obtain ⟨which, rfl⟩ | ⟨f, hf, hname, harity, closure, rfl⟩ := hs.found hfind
      · exact builtin which values offset
      · cases closure with
        | none => exact fail _
        | some closure =>
          obtain ⟨i, hi⟩ := List.mem_iff_getElem?.mp hf
          have hparts : ∀ e ∈ blockExpressions f.body, ∀ x ∈ e.parts, CallsBelow fs i x := fun e he x hx =>
            hdescends i f hi x (List.mem_flatMap_of_mem he hx)
          have hbody := statements (ih i (hbelow i f hi hname harity)) f.body (hloops f hf) hparts
          refine inScope fun inner => bind (bindParameters inner f.parameters values) fun _ _ => ?_
          apply bind (inOrder fun s hs => hbody s hs inner)
          intro flow _
          cases flow <;> exact pure _

/-! ## §5 Programs -/

section

variable (hloops : ∀ f ∈ fs, blockLoopFree f.body = true) (hdescends : Descends fs)

include hloops hdescends

/-- Whatever is called, the call settles. -/
theorem any_call (env : Env) (name : String) (values : List Value) (offset : Nat) :
    Settles fs fun n => Eval.call n env name values offset :=
  call hloops hdescends fs.length env name values offset fun _ _ hi _ _ => (List.getElem?_eq_some_iff.mp hi).1

theorem globals (gs : List Global) : Settles fs fun n => Eval.globals n gs := by
  have hcall := call hloops hdescends fs.length
  have hbelow : ∀ x : Expr, CallsBelow fs fs.length x := by
    intro x
    cases x with
    | call => exact fun _ _ hi _ _ => (List.getElem?_eq_some_iff.mp hi).1
    | literal | group | binary | «variable» | element | list => trivial
  induction gs with
  | nil => exact pure ()
  | cons g rest ih =>
    refine bind (optional fun e _ => expression hcall .globals e fun x _ => hbelow x) fun v _ => ?_
    exact bind (define .globals g.name ⟨g.mutable, v⟩ g.node.offset) fun _ _ => ih

end

theorem functions {gs : List Function} (hgs : gs ⊆ fs) : Settles fs fun _ => Eval.functions gs := by
  induction gs with
  | nil => exact pure ()
  | cons f rest ih =>
    obtain ⟨hf, hrest⟩ := List.cons_subset.mp hgs
    refine bind (steady fun s hs => ?_) fun _ _ => ih hrest
    unfold Eval.defineFunction
    rw [get_bind]
    cases hdefine : s.defineFunction? 0 f.name f.arity (.defined f (some .globals)) with
    | none => exact ⟨hs, nofun⟩
    | some t => exact ⟨hs.defineFunction hf hdefine, nofun⟩

theorem program {p : Program} (hloops : ∀ f ∈ p.functions, blockLoopFree f.body = true)
    (hdescends : Descends p.functions) : Settles p.functions fun n => Eval.program n p := by
  refine bind (globals hloops hdescends p.globals) fun _ _ => bind (functions (List.Subset.refl _)) fun _ _ => ?_
  exact any_call hloops hdescends .globals "main" [] (Eval.mainOffset p)

end Settles

/-- No function of the program has a loop. -/
def Program.loopFree (p : Program) : Bool :=
  p.functions.all fun f => blockLoopFree f.body

variable {tokens : List Token} {p : Program} {t : SideTable}

/-- Functions with one name and one number of parameters are the same. -/
theorem ProgramTyped.key_injective (h : ProgramTyped t p) {i j : Nat} {f g : Function} (hf : p.functions[i]? = some f)
    (hg : p.functions[j]? = some g) (hname : f.name = g.name) (harity : f.arity = g.arity) : i = j := by
  have hnodup := (List.nodup_cons.mp h.distinct).2
  have hi : i < (p.functions.map fun f => (f.name, f.arity)).length := by
    rw [List.length_map]
    exact (List.getElem?_eq_some_iff.mp hf).1
  refine (List.getElem?_inj hi hnodup).mp ?_
  rw [List.getElem?_map, List.getElem?_map, hf, hg, Option.map_some, Option.map_some, hname, harity]

/-- No function has the name and the number of parameters of the builtin. -/
theorem ProgramTyped.arity_ne_one (h : ProgramTyped t p) {g : Function} (hg : g ∈ p.functions)
    (hname : g.name = "print") : g.arity ≠ 1 := by
  intro hone
  have hmem := List.mem_map_of_mem (f := fun f : Function => (f.name, f.arity)) hg
  rw [hname, hone] at hmem
  exact (List.nodup_cons.mp h.distinct).1 hmem

/-- A function is among the first ones at some place. -/
theorem mem_take_iff {fs : List Function} {k : Nat} {g : Function} : g ∈ fs.take k ↔ ∃ j < k, fs[j]? = some g := by
  rw [List.mem_iff_getElem?]
  refine exists_congr fun j => ?_
  rw [List.getElem?_take]
  by_cases hlt : j < k
  · rw [if_pos hlt, and_iff_right hlt]
  · rw [if_neg hlt]
    exact ⟨nofun, fun h => absurd h.1 hlt⟩

/-- In a checked program without direct recursion, calls select functions before the one that they stand in. -/
theorem descends_of_check (hcheck : check builtins p = .ok t) (hids : p.ids.Nodup)
    (hself : ∀ f ∈ p.functions, ¬ f.CallsItself) : Descends p.functions := by
  have htyped := programTyped_of_check hcheck hids
  intro i f hi x hx
  have hselects := selects_before_function hcheck hids hi (hself f (List.mem_of_getElem? hi)) x hx
  cases x with
  | call node name arguments =>
    intro j g hj hname harity
    obtain ⟨info, -, ⟨rfl, hone, -⟩ | ⟨h, hh, hname', harity', -⟩⟩ := hselects
    · exact absurd (harity.trans hone) (htyped.arity_ne_one (List.mem_of_getElem? hj) hname)
    · obtain ⟨l, hlt, hl⟩ := mem_take_iff.mp hh
      exact htyped.key_injective hj hl (hname.trans hname'.symm) (harity.trans harity'.symm) ▸ hlt
  | literal | group | binary | «variable» | element | list => trivial

/-- What a call at a place of the text selects, before the function with the given index: the table has the builtin for
it, or one of the functions before, and whenever the call looks its function up in a run, it finds that one. -/
def ResolvesBefore (t : SideTable) (p : Program) (i : Nat) (node : Node) (name : String) (arity : Nat) : Prop :=
  ∃ c info, t.findFunction? node.id = some info ∧
    ((c = .builtin .print ∧ name = "print" ∧ arity = 1 ∧ info = Builtin.print.info) ∨
      ∃ j g, j < i ∧ p.functions[j]? = some g ∧ c = .defined g (some .globals) ∧ g.name = name ∧ g.arity = arity ∧
        t.findFunction? g.node.id = some info) ∧
    ∀ fuel limit, ∀ m ∈ (p.record fuel limit).moments, m.event = .calls node name arity →
      m.store.findFunction? m.env name arity = some c

/-- A call that selects one of the first functions does so at runtime. -/
theorem resolvesBefore_of_selects (hparse : parse tokens = .ok p) (hcheck : check builtins p = .ok t) {i : Nat}
    {node : Node} {name : String} {arguments : List Expr}
    (h : Selects t (p.functions.take i) (.call node name arguments)) :
    ResolvesBefore t p i node name arguments.length := by
  have htyped := programTyped_of_check hcheck (nodup_ids_of_parse hparse)
  have hfinds : ∀ fuel limit, ∀ m ∈ (p.record fuel limit).moments, m.event = .calls node name arguments.length →
      FindsFunction t p m node name arguments.length := by
    intro fuel limit m hm hevent
    obtain ⟨funs, w, hsound⟩ := sound_record hparse hcheck fuel limit
    exact (hsound.resolved m hm).call hevent
  -- A run finds what has the name and that many parameters, and there is one such thing only.
  obtain ⟨info, hrecorded, ⟨rfl, hone, rfl⟩ | ⟨g, hg, rfl, harity, hinfo⟩⟩ := h
  · refine ⟨.builtin .print, _, hrecorded, .inl ⟨rfl, rfl, hone, rfl⟩, fun fuel limit m hm hevent => ?_⟩
    obtain ⟨c, f, hfind, -, ⟨rfl, -⟩ | ⟨g, hg, -, hname, harity, -⟩⟩ := hfinds fuel limit m hm hevent
    · exact hfind
    · exact absurd (harity.trans hone) (htyped.arity_ne_one hg hname)
  · obtain ⟨j, hlt, hj⟩ := mem_take_iff.mp hg
    refine ⟨.defined g (some .globals), info, hrecorded, .inr ⟨j, g, hlt, hj, rfl, rfl, harity, hinfo⟩,
      fun fuel limit m hm hevent => ?_⟩
    obtain ⟨c, f, hfind, -, ⟨-, hname, hone, -⟩ | ⟨h, hh, rfl, hname, harity', -⟩⟩ := hfinds fuel limit m hm hevent
    · exact absurd (harity.trans hone) (htyped.arity_ne_one (List.mem_of_getElem? hj) hname)
    · obtain ⟨l, hl⟩ := List.mem_iff_getElem?.mp hh
      obtain rfl := htyped.key_injective hl hj hname (harity'.trans harity.symm)
      obtain rfl := Option.some.inj (hl.symm.trans hj)
      exact hfind

/-- The tokens of a program with one function that calls another one:
`FUN twice(x: Integer): Integer DO RETURN x + x; END FUN main(): Integer DO print(twice(2)); RETURN 0; END`. -/
def twiceTokens : List Token :=
  [⟨.identifier, "FUN", 0⟩, ⟨.identifier, "twice", 4⟩, ⟨.operator, "(", 9⟩, ⟨.identifier, "x", 10⟩,
    ⟨.operator, ":", 11⟩, ⟨.identifier, "Integer", 13⟩, ⟨.operator, ")", 20⟩, ⟨.operator, ":", 21⟩,
    ⟨.identifier, "Integer", 23⟩, ⟨.identifier, "DO", 31⟩, ⟨.identifier, "RETURN", 34⟩, ⟨.identifier, "x", 41⟩,
    ⟨.operator, "+", 43⟩, ⟨.identifier, "x", 45⟩, ⟨.operator, ";", 46⟩, ⟨.identifier, "END", 48⟩,
    ⟨.identifier, "FUN", 52⟩, ⟨.identifier, "main", 56⟩, ⟨.operator, "(", 60⟩, ⟨.operator, ")", 61⟩,
    ⟨.operator, ":", 62⟩, ⟨.identifier, "Integer", 64⟩, ⟨.identifier, "DO", 72⟩, ⟨.identifier, "print", 75⟩,
    ⟨.operator, "(", 80⟩, ⟨.identifier, "twice", 81⟩, ⟨.operator, "(", 86⟩, ⟨.integer, "2", 87⟩,
    ⟨.operator, ")", 88⟩, ⟨.operator, ")", 89⟩, ⟨.operator, ";", 90⟩, ⟨.identifier, "RETURN", 92⟩,
    ⟨.integer, "0", 99⟩, ⟨.operator, ";", 100⟩, ⟨.identifier, "END", 102⟩]

/-- The function of that program that calls the other one. -/
def twiceMain : Function :=
  ⟨⟨5, 52⟩, "main", [], some "Integer",
    [.expression 75 (.call ⟨8, 75⟩ "print" [.call ⟨7, 81⟩ "twice" [.literal ⟨6, 87⟩ (.integer 2)]]),
      .returning 92 (.literal ⟨9, 99⟩ (.integer 0))]⟩

/-- The tree of that program. -/
def twiceProgram : Program where
  globals := []
  functions := [⟨⟨0, 0⟩, "twice", [⟨⟨1, 10⟩, "x", "Integer"⟩], some "Integer",
    [.returning 34 (.binary ⟨4, 41⟩ .add (.variable ⟨2, 41⟩ "x") (.variable ⟨3, 45⟩ "x"))]⟩, twiceMain]

/-- What checking finds out about it. -/
def twiceTable : SideTable where
  types := [(9, .integer), (8, .nil), (7, .integer), (6, .integer), (4, .integer), (3, .integer), (2, .integer)]
  vars := [(3, ⟨"x", "x", .integer, true, false⟩), (2, ⟨"x", "x", .integer, true, false⟩),
    (1, ⟨"x", "x", .integer, true, false⟩)]
  funs := [(8, Builtin.print.info), (7, ⟨"twice", "twice", [.integer], .integer⟩), (5, ⟨"main", "main", [], .integer⟩),
    (0, ⟨"twice", "twice", [.integer], .integer⟩)]

theorem parse_twiceTokens : parse twiceTokens = .ok twiceProgram := by
  rfl

theorem check_twiceProgram : check builtins twiceProgram = .ok twiceTable := by
  cbv

end BlockLang
