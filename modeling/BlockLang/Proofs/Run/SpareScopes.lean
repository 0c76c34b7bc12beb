import BlockLang.Proofs.Java.Image
import BlockLang.Proofs.Run.Footprint
import BlockLang.Proofs.Run.Frames
import BlockLang.Proofs.Typing.Walk

/-!
# Scopes to spare

Evaluations look names up in the scopes of their environment and open scopes of their own; which numbers these scopes
have makes no difference.  So an evaluation does the same in two stores of which the second one has some empty scopes
more, and a variable that the evaluation does not know about.

## Main definitions

- `Frame.without`: a frame without the variables of one name.
- `Spare`: the scopes that one of two stores has to spare, and the variable that is hidden in it.
- `Store.Beside`: stores that are the same but for these.
- `Spare.Lifts`: environments of such stores.

## Main statement

- `Matches.everything`: evaluations that do not mention the hidden variable do the same in both stores.
-/

namespace BlockLang

open Stateful

/-! ## §1 Frames without a variable -/

namespace Frame

variable {V F : Type} {f f' g : Frame V F} {name hidden : String}

/-- The frame without the variables of one name. -/
def without (f : Frame V F) (hidden : String) : Frame V F :=
  { f with vars := f.vars.filter fun x => x.1 ≠ hidden }

theorem lookup_filter_ne (h : name ≠ hidden) (vars : List (String × V)) :
    (vars.filter fun x => x.1 ≠ hidden).lookup name = vars.lookup name := by
  induction vars with
  | nil => rfl
  | cons x rest ih =>
    obtain ⟨key, v⟩ := x
    by_cases hkey : key = hidden
    · have hne : (name == key) = false := by simpa [hkey] using h
      rw [List.filter_cons_of_neg (by simpa using hkey), List.lookup_cons, hne]
      exact ih
    · rw [List.filter_cons_of_pos (by simpa using hkey), List.lookup_cons, List.lookup_cons, ih]

theorem findVariable?_without (f : Frame V F) (h : name ≠ hidden) :
    (f.without hidden).findVariable? name = f.findVariable? name :=
  lookup_filter_ne h f.vars

theorem findVariable?_congr (h : f'.without hidden = f.without hidden) (hname : name ≠ hidden) :
    f'.findVariable? name = f.findVariable? name := by
  rw [← f'.findVariable?_without hname, h, f.findVariable?_without hname]

theorem findFunction?_congr (h : f'.without hidden = f.without hidden) (name : String) (arity : Nat) :
    f'.findFunction? name arity = f.findFunction? name arity := by
  have hfuns : (f'.without hidden).funs = (f.without hidden).funs := by rw [h]
  exact congrArg (List.lookup (name, arity)) hfuns

/-- Defining another variable. -/
theorem without_define (f : Frame V F) (h : name ≠ hidden) (v : V) :
    ({ f with vars := (name, v) :: f.vars } : Frame V F).without hidden =
      { f.without hidden with vars := (name, v) :: (f.without hidden).vars } := by
  simp [without, h]

/-- Defining the variable itself. -/
theorem without_define_self (f : Frame V F) (v : V) :
    ({ f with vars := (hidden, v) :: f.vars } : Frame V F).without hidden = f.without hidden := by
  simp [without]

theorem without_updateVariable (f : Frame V F) (name hidden : String) (change : V → V) :
    (f.updateVariable name change).without hidden = (f.without hidden).updateVariable name change := by
  simp only [without, updateVariable, List.filter_map]
  congr 3
  funext x
  -- The change keeps the names.
  dsimp only [Function.comp]
  split <;> rfl

end Frame

/-! ## §2 Stores without a variable -/

namespace Store

/-- The store without the variables of one name. -/
def without (s : Store) (hidden : String) : Store :=
  { s with scopes := s.scopes.map fun f => f.without hidden }

theorem frame_without (s : Store) (hidden : String) (i : Nat) :
    (s.without hidden).frame i = (s.frame i).without hidden := by
  unfold frame without
  rw [Array.getElem?_map]
  cases s.scopes[i]? <;> rfl

end Store

/-! ## §3 Not mentioned -/

/-- The variable that an expression reads by itself. -/
def Expr.variable? : Expr → Option String
  | .variable _ name | .element _ name _ => some name
  | .literal _ _ | .group _ _ | .binary _ _ _ _ | .call _ _ _ | .list _ _ => none

/-- No part of the expression reads a variable of the name. -/
def Expr.Avoids (hidden : String) (e : Expr) : Prop :=
  ∀ x ∈ e.parts, x.variable? ≠ some hidden

theorem avoids_of_allParts {hidden : String} {es : List Expr} (h : ∀ x ∈ Expr.allParts es, x.variable? ≠ some hidden) :
    ∀ e ∈ es, e.Avoids hidden := by
  intro e he x hx
  rw [Expr.allParts_eq] at h
  exact h x (List.mem_flatMap.mpr ⟨e, he, hx⟩)

/-- No variable of the name is declared or read. -/
abbrev Avoids (hidden : String) : Names → List Expr → Prop :=
  Throughout (· ≠ hidden) (Expr.Avoids hidden)

/-- The function neither declares nor reads a variable of the name. -/
def Function.Avoids (hidden : String) (f : Function) : Prop :=
  BlockLang.Avoids hidden f.locals (blockExpressions f.body)

theorem Function.Avoids.parameters {hidden : String} {f : Function} (h : f.Avoids hidden) :
    ∀ p ∈ f.parameters, p.name ≠ hidden :=
  fun p hp => h.names (p.name, p.node.id) (List.mem_append_left _ (List.mem_map_of_mem hp))

theorem Function.Avoids.body {hidden : String} {f : Function} (h : f.Avoids hidden) :
    BlockLang.Avoids hidden (blockLocals f.body) (blockExpressions f.body) :=
  ⟨fun x hx => h.names x (List.mem_append_right _ hx), h.expressions⟩

/-! ## §4 Stores side by side -/

/-- What the second one of two stores has to spare, and the variable that is hidden in it. -/
structure Spare where
  /-- How many scopes there are before the spare ones. -/
  base : Nat
  /-- How many scopes are spare. -/
  count : Nat
  hidden : VariableRef
  /-- What the hidden variable holds, if it has been defined. -/
  cell? : Option Cell

namespace Spare

/-- The number that a scope of the first store has in the second one. -/
def lift (w : Spare) (i : Nat) : Nat :=
  if i < w.base then i else i + w.count

/-- The same variable in the second store. -/
def liftRef (w : Spare) (ref : VariableRef) : VariableRef :=
  ⟨w.lift ref.scope, ref.name⟩

/-- Environments with the same scopes, but for spare ones in the second environment. -/
inductive Lifts (w : Spare) : Env → Env → Prop where
  | nil : Lifts w [] []
  | scope {env env' : Env} (i : Nat) : Lifts w env env' → Lifts w (i :: env) (w.lift i :: env')
  | spare {env env' : Env} {j : Nat} : w.base ≤ j → j < w.base + w.count → Lifts w env env' → Lifts w env (j :: env')

/-- The same when the hidden variable has been defined. -/
def holding (w : Spare) (cell : Cell) : Spare :=
  { w with cell? := some cell }

/-- The same with another spare scope. -/
def more (w : Spare) : Spare :=
  { w with count := w.count + 1 }

variable {w : Spare} {i j : Nat}

@[simp]
theorem base_holding (w : Spare) (cell : Cell) : (w.holding cell).base = w.base := rfl

@[simp]
theorem count_holding (w : Spare) (cell : Cell) : (w.holding cell).count = w.count := rfl

@[simp]
theorem lift_holding (w : Spare) (cell : Cell) (i : Nat) : (w.holding cell).lift i = w.lift i := rfl

@[simp]
theorem hidden_holding (w : Spare) (cell : Cell) : (w.holding cell).hidden = w.hidden := rfl

@[simp]
theorem base_more (w : Spare) : w.more.base = w.base := rfl

@[simp]
theorem count_more (w : Spare) : w.more.count = w.count + 1 := rfl

theorem lift_inj : w.lift i = w.lift j ↔ i = j := by
  unfold lift
  split_ifs <;> omega

theorem lift_of_lt (h : i < w.base) : w.lift i = i :=
  if_pos h

/-- No scope of the first store is a spare one in the second. -/
theorem lift_ne (hbase : w.base ≤ j) (hcount : j < w.base + w.count) (i : Nat) : j ≠ w.lift i := by
  unfold lift
  split_ifs <;> omega

/-- An environment that ends before the spare scopes is the same in both stores. -/
theorem Lifts.of_lt {env : Env} (h : ∀ i ∈ env, i < w.base) : w.Lifts env env := by
  induction env with
  | nil => exact .nil
  | cons i rest ih =>
    obtain ⟨hi, hrest⟩ := List.forall_mem_cons.mp h
    have hscope := Lifts.scope i (ih hrest)
    rwa [lift_of_lt hi] at hscope

/-- Another spare scope makes no difference to scopes before it. -/
theorem Lifts.more {env env' : Env} (h : w.Lifts env env') (henv : ∀ i ∈ env, i < w.base) : w.more.Lifts env env' := by
  induction h with
  | nil => exact .nil
  | scope i _ ih =>
    obtain ⟨hi, hrest⟩ := List.forall_mem_cons.mp henv
    have hlift : w.lift i = w.more.lift i := (lift_of_lt hi).trans (lift_of_lt (w := w.more) hi).symm
    rw [hlift]
    exact .scope i (ih hrest)
  | spare hbase hcount _ ih => exact .spare hbase (Nat.lt_succ_of_lt hcount) (ih henv)

end Spare

/-- Two stores with the same lists and outputs.  The first one has `m` scopes behind the first `w.base` ones; the second
one has the same scopes, but for variables that are called like the hidden one, and the spare scopes between them, which
are empty.  No function mentions the hidden variable, and closures have been made before the spare scopes. -/
structure Store.Beside (w : Spare) (m : Nat) (s s' : Store) : Prop where
  heap_eq : s'.heap = s.heap
  sink_eq : s'.sink = s.sink
  size_eq : s.scopes.size = w.base + m
  size_eq' : s'.scopes.size = w.base + w.count + m
  frames : ∀ i, (s'.frame (w.lift i)).without w.hidden.name = (s.frame i).without w.hidden.name
  spare : ∀ i, w.base ≤ i → i < w.base + w.count → s'.frame i = .empty
  hidden_lt : w.hidden.scope < w.base
  hidden : s'.cell? w.hidden = w.cell?
  functions : ∀ i name arity f closure, (s.frame i).findFunction? name arity = some (.defined f (some closure)) →
    f.Avoids w.hidden.name ∧ ∀ j ∈ closure, j < w.base

namespace Store.Beside

variable {w : Spare} {m : Nat} {s s' : Store} {env env' : Env} {name : String}

theorem cell?_eq (h : Beside w m s s') {ref : VariableRef} (hname : ref.name ≠ w.hidden.name) :
    s'.cell? (w.liftRef ref) = s.cell? ref := by
  rw [Store.cell?_eq, Store.cell?_eq]
  exact Frame.findVariable?_congr (h.frames ref.scope) hname

theorem valueOf_eq (h : Beside w m s s') {ref : VariableRef} (hname : ref.name ≠ w.hidden.name) :
    s'.valueOf (w.liftRef ref) = s.valueOf ref := by
  rw [valueOf, valueOf, h.cell?_eq hname]

/-- Spare scopes are passed by when a variable is looked up. -/
theorem findVariable?_eq (h : Beside w m s s') (hlifts : w.Lifts env env') (hname : name ≠ w.hidden.name) :
    s'.findVariable? env' name = (s.findVariable? env name).map fun found => (w.liftRef found.1, found.2) := by
  unfold findVariable?
  induction hlifts with
  | nil => rfl
  | @scope env env' i _ ih =>
    have hcell : s'.cell? (w.liftRef ⟨i, name⟩) = s.cell? ⟨i, name⟩ := h.cell?_eq hname
    rw [Spare.liftRef] at hcell
    rw [List.findSome?_cons, List.findSome?_cons, hcell]
    cases s.cell? ⟨i, name⟩ with
    | none => exact ih
    | some cell => rfl
  | @spare env env' j hbase hcount _ ih =>
    have hcell : s'.cell? ⟨j, name⟩ = none := by
      rw [Store.cell?_eq, h.spare j hbase hcount]
      rfl
    rw [List.findSome?_cons, hcell]
    exact ih

/-- And so they are when a function is looked up. -/
theorem findFunction?_eq (h : Beside w m s s') (hlifts : w.Lifts env env') (name : String) (arity : Nat) :
    s'.findFunction? env' name arity = s.findFunction? env name arity := by
  rw [Store.findFunction?_eq, Store.findFunction?_eq]
  induction hlifts with
  | nil => rfl
  | scope i _ ih => rw [List.findSome?_cons, List.findSome?_cons, Frame.findFunction?_congr (h.frames i), ih]
  | @spare env env' j hbase hcount _ ih =>
    rw [List.findSome?_cons, h.spare j hbase hcount]
    exact ih

/-- What is found of a function that is called. -/
theorem of_findFunction? (h : Beside w m s s') {arity : Nat} {f : Function} {closure : Env}
    (hfind : s.findFunction? env name arity = some (.defined f (some closure))) :
    f.Avoids w.hidden.name ∧ ∀ j ∈ closure, j < w.base := by
  rw [Store.findFunction?_eq] at hfind
  obtain ⟨i, -, hi⟩ := List.exists_of_findSome?_eq_some hfind
  exact h.functions i name arity f closure hi

/-- Without spare scopes, the stores are the same but for hidden variables. -/
theorem without_eq (h : Beside w m s s') (hcount : w.count = 0) :
    s'.without w.hidden.name = s.without w.hidden.name := by
  refine ext_frames ?_ (fun i => ?_) h.heap_eq h.sink_eq
  · simp [without, h.size_eq, h.size_eq', hcount]
  · have hlift : w.lift i = i := by simp [Spare.lift, hcount]
    have hframe := h.frames i
    rwa [hlift, ← frame_without, ← frame_without] at hframe

/-! ### Changes -/

/-- Lists and outputs that change alike. -/
theorem with_heap (h : Beside w m s s') (heap : Heap) : Beside w m { s with heap := heap } { s' with heap := heap } :=
  { h with heap_eq := rfl }

theorem with_sink (h : Beside w m s s') (sink : Sink) : Beside w m { s with sink := sink } { s' with sink := sink } :=
  { h with sink_eq := rfl }

theorem setValue (h : Beside w m s s') {ref : VariableRef} (hname : ref.name ≠ w.hidden.name) (v : Value) :
    Beside w m (s.setValue ref v) (s'.setValue (w.liftRef ref) v) where
  heap_eq := h.heap_eq
  sink_eq := h.sink_eq
  size_eq := by simpa [Store.setValue] using h.size_eq
  size_eq' := by simpa [Store.setValue] using h.size_eq'
  frames i := by
    simp only [frame_setValue, Spare.liftRef, Spare.lift_inj]
    split_ifs
    · rw [Frame.without_updateVariable, Frame.without_updateVariable, h.frames]
    · exact h.frames i
  spare i hbase hcount := by
    have hne : i ≠ (w.liftRef ref).scope := Spare.lift_ne hbase hcount ref.scope
    rw [frame_setValue, if_neg hne, h.spare i hbase hcount]
  hidden_lt := h.hidden_lt
  hidden := by
    rw [← h.hidden, Store.cell?_eq, Store.cell?_eq, frame_setValue]
    split_ifs
    · rw [Frame.findVariable?_updateVariable, if_neg (by exact Ne.symm hname)]
    · rfl
  functions i name arity f closure hfind := by
    rw [frame_setValue] at hfind
    refine h.functions i name arity f closure ?_
    split_ifs at hfind <;> exact hfind

/-- The stores with other frames for one scope. -/
theorem withFrame (h : Beside w m s s') {i : Nat} (hi : i < w.base + m) {f f' : RunFrame}
    (hframes : f'.without w.hidden.name = f.without w.hidden.name)
    (hhidden : f'.findVariable? w.hidden.name = (s'.frame (w.lift i)).findVariable? w.hidden.name)
    (hfuns : f.funs = (s.frame i).funs) : Beside w m (s.withFrame i f) (s'.withFrame (w.lift i) f') := by
  have hsize : i < s.scopes.size := h.size_eq ▸ hi
  have hsize' : w.lift i < s'.scopes.size := by
    rw [h.size_eq', Spare.lift]
    split_ifs <;> omega
  exact {
    heap_eq := h.heap_eq
    sink_eq := h.sink_eq
    size_eq := by simpa [Store.withFrame] using h.size_eq
    size_eq' := by simpa [Store.withFrame] using h.size_eq'
    frames := fun j => by
      simp only [frame_withFrame hsize', frame_withFrame hsize, Spare.lift_inj]
      split_ifs
      · exact hframes
      · exact h.frames j
    -- No scope of the run without spare ones is lifted to a spare one.
    spare := fun j hbase hcount => by
      rw [frame_withFrame hsize', if_neg (Spare.lift_ne hbase hcount i), h.spare j hbase hcount]
    hidden_lt := h.hidden_lt
    hidden := by
      rw [← h.hidden, Store.cell?_eq, Store.cell?_eq, frame_withFrame hsize']
      split_ifs with heq
      · rw [hhidden, heq]
      · rfl
    functions := fun j name arity g closure hfind => by
      rw [frame_withFrame hsize] at hfind
      refine h.functions j name arity g closure ?_
      split_ifs at hfind with heq
      · subst heq
        rwa [Frame.findFunction?, hfuns] at hfind
      · exact hfind }

/-- A variable that is not the hidden one is defined in both stores or in none. -/
theorem defineVariable (h : Beside w m s s') (i : Nat) (hname : name ≠ w.hidden.name) (cell : Cell) :
    (s.defineVariable? ⟨i, name⟩ cell = none ∧ s'.defineVariable? ⟨w.lift i, name⟩ cell = none) ∨
      ∃ t t', s.defineVariable? ⟨i, name⟩ cell = some t ∧ s'.defineVariable? ⟨w.lift i, name⟩ cell = some t' ∧
        Beside w m t t' := by
  have hopen : w.lift i < s'.scopes.size ↔ i < s.scopes.size := by
    rw [h.size_eq, h.size_eq', Spare.lift]
    split_ifs <;> omega
  have hfind := Frame.findVariable?_congr (h.frames i) hname
  simp only [Store.defineVariable?_eq, hopen, Frame.defineVariable?, hfind]
  split_ifs with hi
  · cases (s.frame i).findVariable? name with
    | some v => exact Or.inl ⟨rfl, rfl⟩
    | none =>
      refine Or.inr ⟨_, _, rfl, rfl, h.withFrame (h.size_eq ▸ hi) ?_ ?_ rfl⟩
      · rw [Frame.without_define _ hname, Frame.without_define _ hname, h.frames i]
      · have hne : (w.hidden.name == name) = false := by simpa using Ne.symm hname
        rw [Frame.findVariable?, List.lookup_cons, hne]
        rfl
  · exact Or.inl ⟨rfl, rfl⟩

theorem openScope (h : Beside w m s s') : Beside w (m + 1) s.openScope s'.openScope where
  heap_eq := h.heap_eq
  sink_eq := h.sink_eq
  size_eq := by simp [Store.openScope, h.size_eq, Nat.add_assoc]
  size_eq' := by simp [Store.openScope, h.size_eq', Nat.add_assoc]
  frames i := by simpa using h.frames i
  spare i hbase hcount := by simpa using h.spare i hbase hcount
  hidden_lt := h.hidden_lt
  hidden := by simpa [Store.cell?_eq] using h.hidden
  functions i name arity f closure hfind := h.functions i name arity f closure (by simpa using hfind)

theorem closeScope (h : Beside w (m + 1) s s') : Beside w m s.closeScope s'.closeScope where
  heap_eq := h.heap_eq
  sink_eq := h.sink_eq
  size_eq := by simp [Store.closeScope, h.size_eq]
  size_eq' := by simp [Store.closeScope, h.size_eq', ← Nat.add_assoc]
  frames i := by
    -- The scope that is closed is the last one of both runs.
    have hlt : w.lift i < s'.scopes.size - 1 ↔ i < s.scopes.size - 1 := by
      rw [h.size_eq, h.size_eq', Spare.lift]
      split_ifs <;> omega
    simp only [frame_closeScope, hlt]
    split_ifs
    · exact h.frames i
    · rfl
  spare i hbase hcount := by
    rw [frame_closeScope, h.spare i hbase hcount]
    split_ifs <;> rfl
  hidden_lt := h.hidden_lt
  hidden := by
    have hlt : w.hidden.scope < s'.scopes.size - 1 := by
      have := h.hidden_lt
      rw [h.size_eq']
      omega
    rw [← h.hidden, Store.cell?_eq, Store.cell?_eq, frame_closeScope, if_pos hlt]
  functions i name arity f closure hfind := by
    rw [frame_closeScope] at hfind
    split_ifs at hfind
    · exact h.functions i name arity f closure hfind
    · cases hfind

/-! ### What is spare, and what is hidden -/

/-- The hidden variable is found through the spare scopes if it is in the innermost other scope. -/
theorem findVariable?_hidden (h : Beside w m s s') {cell : Cell} (hcell : w.cell? = some cell)
    (hlifts : w.Lifts (w.hidden.scope :: env) env') :
    s'.findVariable? env' w.hidden.name = some (w.hidden, cell) := by
  unfold findVariable?
  generalize hinner : w.hidden.scope :: env = inner at hlifts
  induction hlifts with
  | nil => cases hinner
  | scope i _ _ =>
    obtain ⟨rfl, -⟩ := List.cons.inj hinner
    have hfound : s'.cell? w.hidden = some cell := h.hidden.trans hcell
    rw [List.findSome?_cons, Spare.lift_of_lt h.hidden_lt, hfound]
    rfl
  | @spare inner env' j hbase hcount _ ih =>
    have hcell : s'.cell? ⟨j, w.hidden.name⟩ = none := by
      rw [Store.cell?_eq, h.spare j hbase hcount]
      rfl
    rw [List.findSome?_cons, hcell]
    exact ih hinner

/-- The hidden variable is defined, which changes nothing else. -/
theorem defineHidden (h : Beside w m s s') (hnone : w.cell? = none) (cell : Cell) :
    ∃ t', s'.defineVariable? w.hidden cell = some t' ∧ Beside (w.holding cell) m s t' := by
  have hopen : w.hidden.scope < s'.scopes.size := by
    have := h.hidden_lt
    rw [h.size_eq']
    omega
  have hfree : (s'.frame w.hidden.scope).findVariable? w.hidden.name = none := by
    rw [← Store.cell?_eq, h.hidden, hnone]
  have hdefine : s'.defineVariable? w.hidden cell = some (s'.withFrame w.hidden.scope
      { s'.frame w.hidden.scope with
        vars := (w.hidden.name, cell) :: (s'.frame w.hidden.scope).vars }) := by
    rw [defineVariable?_eq, if_pos hopen, Frame.defineVariable?, hfree]
    rfl
  refine ⟨_, hdefine, h.heap_eq, h.sink_eq, h.size_eq, ?_, fun i => ?_, fun i hbase hcount => ?_, h.hidden_lt, ?_,
    h.functions⟩
  · simpa [Store.withFrame] using h.size_eq'
  · rw [Spare.lift_holding, frame_withFrame hopen]
    split_ifs with hi
    · rw [Spare.hidden_holding, Frame.without_define_self, ← hi]
      exact h.frames i
    · exact h.frames i
  · have hne : i ≠ w.hidden.scope := (h.hidden_lt.trans_le hbase).ne'
    rw [frame_withFrame hopen, if_neg hne]
    exact h.spare i hbase hcount
  · rw [Store.cell?_eq, Spare.hidden_holding, frame_withFrame hopen, if_pos rfl, Frame.findVariable?,
      List.lookup_cons_self]
    rfl

/-- Another spare scope is opened. -/
theorem openSpare (h : Beside w 0 s s') : Beside w.more 0 s s'.openScope where
  heap_eq := h.heap_eq
  sink_eq := h.sink_eq
  size_eq := h.size_eq
  size_eq' := by simp [Store.openScope, Spare.more, h.size_eq', Nat.add_assoc]
  frames i := by
    rw [frame_openScope]
    by_cases hi : i < w.base
    · have hframe := h.frames i
      rw [Spare.lift_of_lt hi] at hframe
      rw [Spare.lift_of_lt (w := w.more) hi]
      exact hframe
    · -- Behind the spare scopes there are no scopes.
      have hlift : w.base + w.count ≤ w.more.lift i := by
        rw [Spare.lift, if_neg (by simpa using hi), Spare.count_more]
        omega
      rw [frame_of_size_le (h.size_eq' ▸ hlift), frame_of_size_le (h.size_eq ▸ Nat.le_of_not_lt hi)]
  spare i hbase hcount := by
    rw [frame_openScope]
    by_cases hi : i < w.base + w.count
    · exact h.spare i hbase hi
    · exact frame_of_size_le (h.size_eq' ▸ Nat.le_of_not_lt hi)
  hidden_lt := h.hidden_lt
  hidden := by
    rw [Store.cell?_eq, frame_openScope, ← Store.cell?_eq]
    exact h.hidden
  functions := h.functions

/-- The spare scope that was opened last is closed. -/
theorem closeSpare (h : Beside w.more 0 s s') : Beside w 0 s s'.closeScope where
  heap_eq := h.heap_eq
  sink_eq := h.sink_eq
  size_eq := h.size_eq
  size_eq' := by simp [Store.closeScope, h.size_eq', Spare.more, ← Nat.add_assoc]
  frames i := by
    have hsize : s'.scopes.size - 1 = w.base + w.count := by simp [h.size_eq', Spare.more, ← Nat.add_assoc]
    rw [frame_closeScope, hsize]
    by_cases hi : i < w.base
    · have hframe := h.frames i
      rw [Spare.lift_of_lt (w := w.more) hi] at hframe
      rw [Spare.lift_of_lt hi, if_pos (Nat.lt_add_right _ hi)]
      exact hframe
    · have hlift : ¬ w.lift i < w.base + w.count := by
        rw [Spare.lift, if_neg hi]
        omega
      rw [if_neg hlift, frame_of_size_le (h.size_eq ▸ Nat.le_of_not_lt hi)]
  spare i hbase hcount := by
    rw [frame_closeScope, h.spare i hbase (Nat.lt_succ_of_lt hcount)]
    split_ifs <;> rfl
  hidden_lt := h.hidden_lt
  hidden := by
    have hlt : w.hidden.scope < s'.scopes.size - 1 := by
      have hhidden : w.hidden.scope < w.base := h.hidden_lt
      simp only [h.size_eq', Spare.more]
      omega
    rw [Store.cell?_eq, frame_closeScope, if_pos hlt, ← Store.cell?_eq]
    exact h.hidden
  functions := h.functions

end Store.Beside

/-! ## §5 Evaluations side by side -/

/-- From stores side by side, both evaluations end alike and leave the stores side by side. -/
def Matches {α : Type} (w : Spare) (m : Nat) (x y : Eval α) : Prop :=
  ∀ s s', s.Beside w m s' → Alongside (Store.Beside w m) (x s) (y s')

namespace Matches

variable {α β : Type} {w : Spare} {m : Nat} {x y x' y' : Eval α} {env env' : Env} {name : String}

theorem pure (a : α) : Matches w m (pure a) (pure a) :=
  fun _ _ h => .ok a h

theorem throw (e : Stop) : Matches w m (throw e : Eval α) (throw e) :=
  fun _ _ h => .error e h

theorem fail (e : RunError) : Matches w m (Eval.fail e : Eval α) (Eval.fail e) :=
  throw _

theorem ofExcept (result : Except RunError α) : Matches w m (Eval.ofExcept result) (Eval.ofExcept result) := by
  cases result with
  | ok a => exact pure a
  | error e => exact fail e

theorem bind {f g : α → Eval β} (hx : Matches w m x y) (hf : ∀ a, Matches w m (f a) (g a)) :
    Matches w m (x >>= f) (y >>= g) :=
  fun s s' h => (hx s s' h).bind fun a t t' h' => hf a t t' h'

/-- What is read from the stores may be what they have in common. -/
theorem get_bind {f g : Store → Eval α} (hf : ∀ s s', s.Beside w m s' → Matches w m (f s) (g s')) :
    Matches w m (get >>= f) (get >>= g) :=
  fun s s' h => hf s s' h s s' h

theorem modify {change change' : Store → Store} (h : ∀ s s', s.Beside w m s' → (change s).Beside w m (change' s')) :
    Matches w m (modify change) (modify change') :=
  fun s s' hs => .ok _ (h s s' hs)

theorem ite {c : Prop} [Decidable c] (hx : Matches w m x y) (hx' : Matches w m x' y') :
    Matches w m (if c then x else x') (if c then y else y') := by
  split
  · exact hx
  · exact hx'

theorem discard (hx : Matches w m x y) : Matches w m (discard x) (discard y) :=
  bind hx fun _ => pure ()

/-! ### Single steps -/

/-- A variable that is not hidden is found in both stores, or in none. -/
theorem resolve_bind {f g : VariableRef × Cell → Eval α} (hlifts : w.Lifts env env') (hname : name ≠ w.hidden.name)
    (offset : Nat)
    (hf : ∀ ref cell, ref.name ≠ w.hidden.name → Matches w m (f (ref, cell)) (g (w.liftRef ref, cell))) :
    Matches w m (Eval.resolve env name offset >>= f) (Eval.resolve env' name offset >>= g) := by
  intro s s' h
  have hfind := h.findVariable?_eq hlifts hname
  cases hfound : s.findVariable? env name with
  | none =>
    rw [hfound] at hfind
    rw [bind_of_error (Eval.resolve_of_not_found hfound), bind_of_error (Eval.resolve_of_not_found hfind)]
    exact .error _ h
  | some found =>
    obtain ⟨ref, cell⟩ := found
    rw [hfound] at hfind
    obtain ⟨-, hrefname, -⟩ := Store.of_findVariable? hfound
    rw [bind_of_ok (Eval.resolve_of_found hfound), bind_of_ok (Eval.resolve_of_found hfind)]
    exact hf ref cell (hrefname ▸ hname) s s' h

theorem valueOf {ref : VariableRef} (hname : ref.name ≠ w.hidden.name) :
    Matches w m (Eval.valueOf ref) (Eval.valueOf (w.liftRef ref)) := by
  refine get_bind fun s s' h => ?_
  rw [h.valueOf_eq hname]
  exact pure _

/-- A definition in one scope. -/
theorem define (hhead : env'.headD 0 = w.lift (env.headD 0)) (hname : name ≠ w.hidden.name) (cell : Cell)
    (offset : Nat) : Matches w m (Eval.define env name cell offset) (Eval.define env' name cell offset) := by
  intro s s' h
  rw [Eval.define, Eval.define, Stateful.get_bind, Stateful.get_bind, hhead]
  rcases h.defineVariable (env.headD 0) hname cell with ⟨hnone, hnone'⟩ | ⟨t, t', hsome, hsome', ht⟩
  · rw [hnone, hnone']
    exact .error _ h
  · rw [hsome, hsome']
    exact .ok _ ht

theorem newList (elements : List Value) : Matches w m (Eval.newList elements) (Eval.newList elements) := by
  intro s s' h
  have hrun : ∀ t : Store, Eval.newList elements t =
      .ok (.list (t.heap.allocate elements).1) { t with heap := (t.heap.allocate elements).2 } := fun _ => rfl
  rw [hrun, hrun, h.heap_eq]
  exact .ok _ (h.with_heap _)

theorem write (text : String) : Matches w m (Eval.write text) (Eval.write text) := by
  refine bind (fun s s' h => ?_) fun complete => ite (pure ()) (fail _)
  have hrun : ∀ t : Store,
      (modifyGet fun t : Store => ((t.sink.write text).1, { t with sink := (t.sink.write text).2 }) : Eval Bool) t =
        .ok (t.sink.write text).1 { t with sink := (t.sink.write text).2 } := fun _ => rfl
  refine (hrun s).symm ▸ (hrun s').symm ▸ ?_
  rw [h.sink_eq]
  exact .ok _ (h.with_sink _)

theorem builtin (which : Builtin) (arguments : List Value) (offset : Nat) :
    Matches w m (Eval.builtin which arguments offset) (Eval.builtin which arguments offset) := by
  cases which with
  | print =>
    match arguments with
    | [] | _ :: _ :: _ => exact fail _
    | [v] =>
      refine get_bind fun s s' h => ?_
      rw [h.heap_eq]
      exact bind (write _) fun _ => pure Value.nil

/-- A scope that is opened in both stores, and closed again. -/
theorem inScope {x y : Env → Eval α} (hlifts : w.Lifts env env')
    (h : ∀ inner inner', w.Lifts inner inner' → inner'.headD 0 = w.lift (inner.headD 0) →
      Matches w (m + 1) (x inner) (y inner')) :
    Matches w m (Eval.inScope env x) (Eval.inScope env' y) := by
  intro s s' hs
  have hnumber : s'.scopes.size = w.lift s.scopes.size := by
    rw [hs.size_eq, hs.size_eq', Spare.lift, if_neg (by omega)]
    omega
  have hinner := h (s.scopes.size :: env) (s'.scopes.size :: env') (hnumber ▸ .scope _ hlifts) hnumber
    s.openScope s'.openScope hs.openScope
  unfold Eval.inScope
  generalize x (s.scopes.size :: env) s.openScope = o at hinner
  generalize y (s'.scopes.size :: env') s'.openScope = o' at hinner
  cases hinner with
  | ok a ht => exact .ok a ht.closeScope
  | error e ht => exact .error e ht.closeScope

/-! ### Sequences -/

section

variable {eval eval' : Expr → Eval Value}
  (heval : ∀ e, e.Avoids w.hidden.name → Matches w m (eval e) (eval' e))

include heval

theorem all (es : List Expr) (havoids : ∀ e ∈ es, e.Avoids w.hidden.name) :
    Matches w m (Eval.all eval es) (Eval.all eval' es) := by
  induction es with
  | nil => exact pure []
  | cons e rest ih =>
    obtain ⟨hfirst, hrest⟩ := List.forall_mem_cons.mp havoids
    exact bind (heval e hfirst) fun v => bind (ih hrest) fun vs => pure (v :: vs)

theorem optional (e : Option Expr) (havoids : ∀ x ∈ e, x.Avoids w.hidden.name) :
    Matches w m (Eval.optional eval e) (Eval.optional eval' e) := by
  cases e with
  | none => exact pure Value.nil
  | some e => exact heval e (havoids e rfl)

theorem binary (op : Operator) {left right : Expr} (offset : Nat) (hleft : left.Avoids w.hidden.name)
    (hright : right.Avoids w.hidden.name) :
    Matches w m (Eval.binary eval op left right offset) (Eval.binary eval' op left right offset) := by
  refine bind (heval left hleft) fun l => ite ?_ ?_
  · refine bind (ofExcept _) fun decided => ite (pure l) ?_
    exact bind (heval right hright) fun r => ofExcept _
  · refine bind (heval right hright) fun r => get_bind fun s s' h => ?_
    rw [h.heap_eq]
    exact ofExcept _

theorem element (hlifts : w.Lifts env env') (hname : name ≠ w.hidden.name) {index : Expr}
    (hindex : index.Avoids w.hidden.name) (offset : Nat) :
    Matches w m (Eval.element eval env name index offset) (Eval.element eval' env' name index offset) := by
  refine resolve_bind hlifts hname offset fun ref cell href => bind (heval index hindex) fun position => ?_
  refine bind (valueOf href) fun held => bind (ofExcept _) fun list => get_bind fun s s' h => ?_
  rw [h.heap_eq]
  exact bind (ofExcept _) fun n => bind (ofExcept _) fun i => pure _

theorem storeElement {ref : VariableRef} (href : ref.name ≠ w.hidden.name) {index value : Expr}
    (hindex : index.Avoids w.hidden.name) (hvalue : value.Avoids w.hidden.name) (receiver : Expr) (offset : Nat) :
    Matches w m (Eval.storeElement eval ref index value receiver offset)
      (Eval.storeElement eval' (w.liftRef ref) index value receiver offset) := by
  refine bind (heval index hindex) fun position => bind (heval value hvalue) fun v => bind (valueOf href) fun held => ?_
  refine bind (ofExcept _) fun list => get_bind fun s s' h => ?_
  rw [h.heap_eq]
  refine ite (fail _) (bind (ofExcept _) fun n => bind (ofExcept _) fun i => modify fun t t' ht => ?_)
  unfold Store.setElement
  rw [ht.heap_eq]
  exact ht.with_heap _

omit heval in
/-- The variable that an assignment changes is found in both stores. -/
theorem receiver_bind {f g : VariableRef → Eval α} (hlifts : w.Lifts env env') (hname : name ≠ w.hidden.name)
    (nameOffset offset : Nat)
    (hf : ∀ ref : VariableRef, ref.name ≠ w.hidden.name → Matches w m (f ref) (g (w.liftRef ref))) :
    Matches w m (Eval.receiver env name nameOffset offset >>= f) (Eval.receiver env' name nameOffset offset >>= g) := by
  simp only [Eval.receiver, bind_assoc]
  refine resolve_bind hlifts hname nameOffset fun ref cell href => ?_
  -- A variable that cannot be assigned ends both.
  cases cell.mutable with
  | true => exact hf ref href
  | false => exact fun s s' h => .error _ h

theorem assign (hlifts : w.Lifts env env') {target value : Expr} (htarget : target.Avoids w.hidden.name)
    (hvalue : value.Avoids w.hidden.name) (offset : Nat) :
    Matches w m (Eval.assign eval env target value offset) (Eval.assign eval' env' target value offset) := by
  cases target with
  | «variable» node name =>
    have hname : name ≠ w.hidden.name := fun heq => htarget _ List.mem_cons_self (congrArg some heq)
    refine receiver_bind hlifts hname node.offset offset fun ref href => bind (heval value hvalue) fun v => ?_
    exact modify fun s s' h => h.setValue href v
  | element node name index =>
    obtain ⟨hread, hindex⟩ := List.forall_mem_cons.mp htarget
    have hname : name ≠ w.hidden.name := fun heq => hread (congrArg some heq)
    refine receiver_bind hlifts hname node.offset offset fun ref href => ?_
    exact storeElement heval href hindex hvalue (.element node name index) offset
  | literal | group | binary | call | list => exact fail (.typeFault .receiver offset)

/-- The arms of both switches are selected alike; what holds of the statements of all arms holds of those selected. -/
theorem select_bind {f g : Option (List Statement) → Eval α} {P : List Statement → Prop} (subject : Value)
    {cases : List Case} (hcases : ∀ c ∈ cases, (∀ e ∈ c.value, e.Avoids w.hidden.name) ∧ P c.body)
    {fallback : Option (List Statement)} (hfallback : ∀ body ∈ fallback, P body)
    (hf : ∀ selected, (∀ body ∈ selected, P body) → Matches w m (f selected) (g selected)) :
    Matches w m (Eval.select eval subject fallback cases >>= f) (Eval.select eval' subject fallback cases >>= g) := by
  induction cases generalizing fallback with
  | nil => exact hf fallback hfallback
  | cons arm rest ih =>
    obtain ⟨offset, value, body⟩ := arm
    obtain ⟨⟨hvalue, hbody⟩, hrest⟩ := List.forall_mem_cons.mp hcases
    cases value with
    | none => exact ih hrest (forall_mem_or_some hfallback hbody)
    | some value =>
      simp only [Eval.select, bind_assoc]
      refine bind (heval value (hvalue value rfl)) fun v => get_bind fun s s' h => ?_
      rw [h.heap_eq]
      split
      · exact hf (some body) fun other hother => Option.some.inj hother ▸ hbody
      · exact ih hrest hfallback

end

theorem inOrder {exec exec' : Statement → Eval Flow} {body : List Statement}
    (hexec : ∀ st ∈ body, Matches w m (exec st) (exec' st)) :
    Matches w m (Eval.inOrder exec body) (Eval.inOrder exec' body) := by
  induction body with
  | nil => exact pure Flow.normal
  | cons first rest ih =>
    obtain ⟨hfirst, hrest⟩ := List.forall_mem_cons.mp hexec
    refine bind hfirst fun flow => ?_
    cases flow with
    | returned v => exact pure (Flow.returned v)
    | normal => exact ih hrest

theorem bindParameters (hhead : env'.headD 0 = w.lift (env.headD 0)) (ps : List Parameter)
    (hnames : ∀ p ∈ ps, p.name ≠ w.hidden.name) (values : List Value) :
    Matches w m (Eval.bindParameters env ps values) (Eval.bindParameters env' ps values) := by
  induction ps generalizing values with
  | nil => exact pure ()
  | cons p rest ih =>
    obtain ⟨hfirst, hrest⟩ := List.forall_mem_cons.mp hnames
    cases values with
    | nil => exact pure ()
    | cons v values => exact bind (define hhead hfirst ⟨true, v⟩ p.node.offset) fun _ => ih hrest values

/-! ### All evaluators -/

/-- With `n` as fuel, evaluations that do not mention the hidden variable do the same in both stores. -/
structure Everywhere (w : Spare) (n : Nat) : Prop where
  expression {m : Nat} {env env' : Env} : w.Lifts env env' → ∀ e, e.Avoids w.hidden.name →
    Matches w m (Eval.expression n env e) (Eval.expression n env' e)
  call {m : Nat} {env env' : Env} : w.Lifts env env' → ∀ name arguments offset,
    Matches w m (Eval.call n env name arguments offset) (Eval.call n env' name arguments offset)
  statement {m : Nat} {env env' : Env} : w.Lifts env env' → env'.headD 0 = w.lift (env.headD 0) → ∀ st : Statement,
    Avoids w.hidden.name st.locals st.expressions → Matches w m (Eval.statement n env st) (Eval.statement n env' st)
  loop {m : Nat} {env env' : Env} : w.Lifts env env' → ∀ condition body, condition.Avoids w.hidden.name →
    Avoids w.hidden.name (blockLocals body) (blockExpressions body) →
    Matches w m (Eval.loop n env condition body) (Eval.loop n env' condition body)

namespace Everywhere

variable {n : Nat}

/-- A block has its own scope in both stores. -/
theorem block (h : Everywhere w n) (hlifts : w.Lifts env env') {body : List Statement}
    (hbody : Avoids w.hidden.name (blockLocals body) (blockExpressions body)) :
    Matches w m (Eval.block (Eval.statement n) env body) (Eval.block (Eval.statement n) env' body) :=
  inScope hlifts fun _ _ hinner hhead => inOrder fun st hst => h.statement hinner hhead st (hbody.statement st hst)

theorem expression_succ (h : Everywhere w n) (hlifts : w.Lifts env env') (e : Expr) (he : e.Avoids w.hidden.name) :
    Matches w m (Eval.expression (n + 1) env e) (Eval.expression (n + 1) env' e) := by
  have heval : ∀ e : Expr, e.Avoids w.hidden.name → Matches w m (Eval.expression n env e) (Eval.expression n env' e) :=
    h.expression hlifts
  cases e with
  | literal node value => exact pure (Value.ofLiteral value)
  | group node inner => exact heval inner (List.forall_mem_cons.mp he).2
  | binary node op left right =>
    obtain ⟨hleft, hright⟩ := List.forall_mem_append.mp (List.forall_mem_cons.mp he).2
    exact binary heval op node.offset hleft hright
  | «variable» node name =>
    have hname : name ≠ w.hidden.name := fun heq => he _ List.mem_cons_self (congrArg some heq)
    exact resolve_bind hlifts hname node.offset fun ref cell href => pure cell.value
  | element node name index =>
    obtain ⟨hread, hindex⟩ := List.forall_mem_cons.mp he
    exact element heval hlifts (fun heq => hread (congrArg some heq)) hindex node.offset
  | call node name arguments =>
    have harguments := avoids_of_allParts (List.forall_mem_cons.mp he).2
    exact bind (all heval arguments harguments) fun values => h.call hlifts name values node.offset
  | list node elements =>
    have helements := avoids_of_allParts (List.forall_mem_cons.mp he).2
    exact bind (all heval elements helements) fun values => newList values

theorem call_succ (h : Everywhere w n) (hlifts : w.Lifts env env') (name : String) (arguments : List Value)
    (offset : Nat) :
    Matches w m (Eval.call (n + 1) env name arguments offset) (Eval.call (n + 1) env' name arguments offset) := by
  refine get_bind fun s s' hs => ?_
  rw [hs.findFunction?_eq hlifts]
  cases hfind : s.findFunction? env name arguments.length with
  | none => exact fail _
  | some callable =>
    cases callable with
    | builtin which => exact builtin which arguments offset
    | defined f closure =>
      cases closure with
      | none => exact fail _
      | some closure =>
        obtain ⟨hf, hclosure⟩ := hs.of_findFunction? hfind
        refine inScope (.of_lt hclosure) fun inner inner' hinner hhead => ?_
        refine bind (bindParameters hhead f.parameters hf.parameters arguments) fun _ => ?_
        refine bind (inOrder fun st hst => h.statement hinner hhead st (hf.body.statement st hst)) fun flow => ?_
        cases flow <;> exact pure _

theorem statement_succ (h : Everywhere w n) (hlifts : w.Lifts env env') (hhead : env'.headD 0 = w.lift (env.headD 0))
    (st : Statement) (hst : Avoids w.hidden.name st.locals st.expressions) :
    Matches w m (Eval.statement (n + 1) env st) (Eval.statement (n + 1) env' st) := by
  have heval : ∀ e : Expr, e.Avoids w.hidden.name → Matches w m (Eval.expression n env e) (Eval.expression n env' e) :=
    h.expression hlifts
  cases st with
  | expression offset e => exact bind (discard (heval e hst.head)) fun _ => pure Flow.normal
  | declaration node name type value =>
    have hname : name ≠ w.hidden.name := hst.names _ List.mem_cons_self
    refine bind (optional heval value fun e he => ?_) fun v =>
      bind (define hhead hname ⟨true, v⟩ node.offset) fun _ => pure Flow.normal
    exact hst.expressions e (Option.mem_toList.mpr he)
  | assignment offset target value =>
    exact bind (assign heval hlifts hst.head hst.tail.head offset) fun _ => pure Flow.normal
  | conditional offset condition onTrue onFalse =>
    refine bind (heval condition hst.head) fun test => bind (ofExcept _) fun holds => ite (pure Flow.normal) ?_
    apply h.block hlifts
    cases holds with
    | true => exact hst.tail.left
    | false => exact hst.tail.right
  | switch offset condition cases =>
    refine bind (heval condition hst.head) fun subject => select_bind heval subject
      (P := fun body => Avoids w.hidden.name (blockLocals body) (blockExpressions body)) (fun c hc => ?_)
      (fun _ hnone => absurd hnone (Option.not_mem_none _)) fun selected hselected => ?_
    · obtain ⟨offset, value, body⟩ := c
      have harm := hst.tail.arm _ hc
      exact ⟨fun e he => harm.expressions e (List.mem_append_left _ (Option.mem_toList.mpr he)), harm.names,
        fun e he => harm.expressions e (List.mem_append_right _ he)⟩
    · cases selected with
      | none => exact pure Flow.normal
      | some body => exact h.block hlifts (hselected body rfl)
  | loop offset condition body => exact h.loop hlifts condition body hst.head hst.tail
  | returning offset value => exact bind (heval value hst.head) fun v => pure (Flow.returned v)

theorem loop_succ (h : Everywhere w n) (hlifts : w.Lifts env env') (condition : Expr) (body : List Statement)
    (hcondition : condition.Avoids w.hidden.name)
    (hbody : Avoids w.hidden.name (blockLocals body) (blockExpressions body)) :
    Matches w m (Eval.loop (n + 1) env condition body) (Eval.loop (n + 1) env' condition body) := by
  refine bind (h.expression hlifts condition hcondition) fun test => bind (ofExcept _) fun holds => ite ?_ (pure _)
  refine bind (h.block hlifts hbody) fun flow => ?_
  cases flow with
  | returned v => exact pure (Flow.returned v)
  | normal => exact h.loop hlifts condition body hcondition hbody

end Everywhere

/-- Evaluations that do not mention the hidden variable do the same in both stores. -/
theorem everything (w : Spare) (n : Nat) : Everywhere w n := by
  -- The evaluators call each other with less fuel, in other environments and with more scopes open.
  induction n with
  | zero => exact ⟨fun _ _ _ => throw _, fun _ _ _ _ => throw _, fun _ _ _ _ => throw _, fun _ _ _ _ _ => throw _⟩
  | succ n ih => exact ⟨ih.expression_succ, ih.call_succ, ih.statement_succ, ih.loop_succ⟩

end Matches

end BlockLang
