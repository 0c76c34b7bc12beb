import BlockLang.Proofs.Run.Erasure
import BlockLang.Proofs.Run.Footprint

/-!
# Blocks and calls keep to themselves

The names that a block or a call defines are gone when it ends, in whatever way it ends, and no name around it goes
away.  A call leaves the variables of its callers as they are: what it can change outside is globals, and the elements
of lists.

## Main definitions

- `Store.SameNames`: the same names are defined, scope by scope.
- `Store.SameLocals`: no variable but globals has changed.

## Main statement

- `evaluation_keeps_surroundings`: at every moment of a run, whatever is evaluated.
-/

namespace BlockLang

open Stateful

/-! ## §1 The same names and the same variables -/

/-- The same scopes are open, each with the variables and the functions of the same names. -/
structure Store.SameNames (s t : Store) : Prop where
  size_eq : t.scopes.size = s.scopes.size
  names : ∀ ref, (t.cell? ref).isSome = (s.cell? ref).isSome
  functions : ∀ scope name arity, t.findFunction? [scope] name arity = s.findFunction? [scope] name arity

/-- Apart from the globals, there are the same variables, and they hold what they held. -/
def Store.SameLocals (s t : Store) : Prop :=
  ∀ ref : VariableRef, ref.scope ≠ 0 → t.cell? ref = s.cell? ref

namespace Store.Keeps

variable {F : Footprint} {s t : Store}

/-- Where no names may be defined, there are no others afterwards. -/
theorem cell?_eq_none (h : s.Keeps F t) (hsize : t.scopes.size = s.scopes.size) {ref : VariableRef}
    (hgrows : ¬ F.grows ref.scope) (hnone : s.cell? ref = none) : t.cell? ref = none := by
  unfold Store.cell? at hnone ⊢
  cases hf : s.scopes[ref.scope]? with
  | none =>
    -- The scope is not open, and none has been opened.
    rw [Array.getElem?_eq_none_iff, ← hsize] at hf
    rw [Array.getElem?_eq_none hf]
  | some f =>
    simp only [hf] at hnone
    obtain ⟨f', hf', hkeeps⟩ := h ref.scope f hf
    simp only [hf']
    exact hkeeps.absent hgrows hnone

theorem findFunction?_eq (h : s.Keeps F t) (hsize : t.scopes.size = s.scopes.size) {scope : Nat}
    (hgrows : ¬ F.grows scope) (name : String) (arity : Nat) :
    t.findFunction? [scope] name arity = s.findFunction? [scope] name arity := by
  unfold Store.findFunction?
  cases hf : s.scopes[scope]? with
  | none =>
    have hf' : t.scopes[scope]? = none := by
      rw [Array.getElem?_eq_none_iff] at hf ⊢
      omega
    simp [hf, hf']
  | some f =>
    obtain ⟨f', hf', hkeeps⟩ := h scope f hf
    simp [hf, hf', Frame.findFunction?, hkeeps.functions hgrows]

theorem sameNames (h : s.Keeps F t) (hsize : t.scopes.size = s.scopes.size) (hgrows : ∀ i, ¬ F.grows i) :
    s.SameNames t where
  size_eq := hsize
  names ref := by
    cases hcell : s.cell? ref with
    | none => rw [h.cell?_eq_none hsize (hgrows _) hcell]
    | some c =>
      obtain ⟨c', hcell', -⟩ := h.cell? hcell
      rw [hcell']
      rfl
  functions scope name arity := h.findFunction?_eq hsize (hgrows scope) name arity

/-- Calls can assign no variables but globals. -/
theorem sameLocals (h : s.Keeps .ofCall t) (hsize : t.scopes.size = s.scopes.size) : s.SameLocals t := by
  intro ref hscope
  cases hcell : s.cell? ref with
  | none => exact h.cell?_eq_none hsize id hcell
  | some c =>
    obtain ⟨c', hcell', hkeeps⟩ := h.cell? hcell
    rw [hcell', hkeeps.eq fun hwritten => hscope hwritten.2]

end Store.Keeps

/-! ## §2 Evaluations -/

/-- An evaluation does without a record what it does with one. -/
theorem Touches.keeps {α : Type} {F : Footprint} {x : Traced α} {y : Eval α} {s : Store}
    (hx : Touches F ⟨s, #[], []⟩ x) (herases : Erases x y) (hs : s.Rooted) :
    s.Keeps F (state (y s)) ∧ (state (y s)).scopes.size = s.scopes.size := by
  have hstays := hx hs
  rw [← herases.store_eq ⟨s, #[], []⟩]
  exact ⟨hstays.store.keeps, hstays.size_eq⟩

namespace Store.Rooted

variable {s : Store}

theorem keeps_expression (h : s.Rooted) (n : Nat) (env : Env) (e : Expr) :
    s.Keeps .ofCall (state (Eval.expression n env e s)) ∧
      (state (Eval.expression n env e s)).scopes.size = s.scopes.size :=
  ((Touches.everything n).expression _ env e).keeps ((Erases.everything n).expression env e) h

theorem keeps_call (h : s.Rooted) (n : Nat) (env : Env) (name : String) (arguments : List Value) (offset : Nat) :
    s.Keeps .ofCall (state (Eval.call n env name arguments offset s)) ∧
      (state (Eval.call n env name arguments offset s)).scopes.size = s.scopes.size :=
  ((Touches.everything n).call _ env name arguments offset).keeps
    ((Erases.everything n).call env name arguments offset) h

theorem keeps_block (h : s.Rooted) (n : Nat) (env : Env) (body : List Statement) :
    s.Keeps (.ofBlock env) (state (Eval.block (Eval.statement n) env body s)) ∧
      (state (Eval.block (Eval.statement n) env body s)).scopes.size = s.scopes.size :=
  (Touches.block (Touches.everything n).statement env body).keeps (.block (Erases.everything n).statement env body) h

end Store.Rooted

/-- **Blocks and calls do not leak.** At every moment of every run of a program, however the evaluation of an
expression, a block or a call from there ends, all scopes have the names they had; and expressions and calls leave all
variables but the globals as they were. -/
theorem evaluation_keeps_surroundings {p : Program} {fuel : Nat} {limit : Option Nat} {m : Moment}
    (hm : m ∈ (p.record fuel limit).moments) (n : Nat) (env : Env) :
    (∀ e, m.store.SameNames (state (Eval.expression n env e m.store)) ∧
      m.store.SameLocals (state (Eval.expression n env e m.store))) ∧
    (∀ body, m.store.SameNames (state (Eval.block (Eval.statement n) env body m.store))) ∧
    ∀ name arguments offset, m.store.SameNames (state (Eval.call n env name arguments offset m.store)) ∧
      m.store.SameLocals (state (Eval.call n env name arguments offset m.store)) := by
  have hrooted := Program.rooted_of_moment hm
  refine ⟨fun e => ?_, fun body => ?_, fun name arguments offset => ?_⟩
  · obtain ⟨hkeeps, hsize⟩ := hrooted.keeps_expression n env e
    exact ⟨hkeeps.sameNames hsize fun _ => id, hkeeps.sameLocals hsize⟩
  · obtain ⟨hkeeps, hsize⟩ := hrooted.keeps_block n env body
    exact hkeeps.sameNames hsize fun _ => id
  · obtain ⟨hkeeps, hsize⟩ := hrooted.keeps_call n env name arguments offset
    exact ⟨hkeeps.sameNames hsize fun _ => id, hkeeps.sameLocals hsize⟩

/-- A function assigns a global, and its parameter, which has the name of a variable of the caller:
`VAR n = 1; FUN bump(k: Integer) DO n = k; k = 7; END FUN main(): Integer DO LET k = 5; bump(k); RETURN k; END`. -/
def shadowingProgram : Program where
  globals := [⟨⟨0, 0⟩, "n", true, none, some (.literal ⟨1, 8⟩ (.integer 1))⟩]
  functions := [
    ⟨⟨2, 11⟩, "bump", [⟨⟨3, 20⟩, "k", "Integer"⟩], none,
      [.assignment 35 (.variable ⟨4, 35⟩ "n") (.variable ⟨5, 39⟩ "k"),
        .assignment 42 (.variable ⟨6, 42⟩ "k") (.literal ⟨7, 46⟩ (.integer 7))]⟩,
    ⟨⟨8, 53⟩, "main", [], some "Integer",
      [.declaration ⟨9, 76⟩ "k" none (some (.literal ⟨10, 84⟩ (.integer 5))),
        .expression 87 (.call ⟨12, 87⟩ "bump" [.variable ⟨11, 92⟩ "k"]), .returning 96 (.variable ⟨13, 103⟩ "k")]⟩]

/-- The call changes the global, and the variable of the caller holds what it held. -/
theorem evaluation_keeps_surroundings_shadowing :
    ∃ m ∈ (shadowingProgram.record 20 none).moments,
      m.store.cell? ⟨1, "k"⟩ = some ⟨true, .integer 5⟩ ∧
      (state (Eval.call 10 m.env "bump" [.integer 5] 87 m.store)).cell? ⟨0, "n"⟩ = some ⟨true, .integer 5⟩ ∧
      (state (Eval.call 10 m.env "bump" [.integer 5] 87 m.store)).cell? ⟨1, "k"⟩ = some ⟨true, .integer 5⟩ := by
  obtain ⟨m, hm, hcell, hglobal⟩ : ∃ m ∈ (shadowingProgram.record 20 none).moments,
      m.store.cell? ⟨1, "k"⟩ = some ⟨true, .integer 5⟩ ∧
      (state (Eval.call 10 m.env "bump" [.integer 5] 87 m.store)).cell? ⟨0, "n"⟩ = some ⟨true, .integer 5⟩ := by
    decide +kernel
  obtain ⟨-, hlocals⟩ := (evaluation_keeps_surroundings hm 10 m.env).2.2 "bump" [.integer 5] 87
  exact ⟨m, hm, hcell, hglobal, (hlocals ⟨1, "k"⟩ (by decide)).trans hcell⟩

end BlockLang
