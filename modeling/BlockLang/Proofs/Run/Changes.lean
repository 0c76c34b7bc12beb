import BlockLang.Proofs.Run.Frames
import BlockLang.Proofs.Run.Outcomes
import BlockLang.Proofs.Run.Record
import BlockLang.Proofs.Value.Containment

/-!
# The changes of a run

Whatever a program does, checked or not, its store changes by a few kinds of single changes: a name is defined, a
variable or an element gets a value, a list is created, something is printed, a scope is opened or closed.  All values
that take part refer to lists that have been created, and an element is only stored into a list to which the value does
not lead.

A store whose values refer to existing lists stays so with every change, and its heap stays regular.  That every
evaluation goes by such changes is shown by following how the evaluators are built; what a single change keeps is
thereby kept by every run.

## Main definitions

- `Store.Change`, `Store.Changes`: single changes and sequences of them.
- `Store.Regular`: stores without cycles and without references to nothing.
- `Proceeds`: an evaluation goes by changes.

## Main statements

- `Store.Changes.regular`: changes keep a store regular.
- `Proceeds.everything`: all evaluators go by changes.
-/

namespace BlockLang

open Relation Stateful

/-! ## §1 Changes -/

namespace Store

/-- The lists that a value refers to have been created. -/
def Has (s : Store) (v : Value) : Prop :=
  v.Below s.heap.lists.size

/-- A single change of a store. -/
inductive Change : Store → Store → Prop where
  /-- A variable is defined. -/
  | defineVariable {s t : Store} {ref : VariableRef} {cell : Cell} (hvalue : s.Has cell.value)
      (h : s.defineVariable? ref cell = some t) : Change s t
  /-- A function is defined. -/
  | defineFunction {s t : Store} {scope : Nat} {name : String} {arity : Nat} {g : Callable}
      (h : s.defineFunction? scope name arity g = some t) : Change s t
  /-- A variable gets another value. -/
  | setValue {s : Store} (ref : VariableRef) {v : Value} (hvalue : s.Has v) : Change s (s.setValue ref v)
  /-- A list is created. -/
  | allocate {s : Store} {vs : List Value} (hvalues : ∀ v ∈ vs, s.Has v) : Change s (s.allocate vs).2
  /-- An element of a list gets another value, which does not lead to the list. -/
  | setElement {s : Store} {l : ListRef} (i : Nat) {v : Value} (hvalue : s.Has v)
      (hcontains : s.heap.contains v l = false) : Change s (s.setElement l i v)
  /-- Something is printed. -/
  | write {s : Store} (text : String) : Change s { s with sink := (s.sink.write text).2 }
  /-- A scope is opened. -/
  | openScope {s : Store} : Change s s.openScope
  /-- The scope opened last is closed. -/
  | closeScope {s : Store} : Change s s.closeScope
  /-- Functions defined in a scope cannot be called any more. -/
  | forget {s : Store} (scope : Nat) :
      Change s { s with scopes := s.scopes.map fun f => f.mapFunctions (Callable.forget scope) }

/-- Any number of changes. -/
abbrev Changes : Store → Store → Prop :=
  ReflTransGen Change

/-! ## §2 Regular stores -/

/-- Every variable of every open scope holds a value of some kind. -/
def Holding (s : Store) (P : Value → Prop) : Prop :=
  ∀ (scope : Nat) (frame : RunFrame), s.scopes[scope]? = some frame → ∀ x ∈ frame.vars, P x.2.value

/-- All values in variables and lists refer to lists that have been created, and no list can be reached from itself. -/
structure Regular (s : Store) : Prop where
  heap : s.heap.Regular
  cells : s.Holding s.Has

variable {s t : Store} {v : Value}

/-- The store before a run. -/
theorem Regular.initial (limit : Option Nat) : (Store.initial limit).Regular := by
  refine ⟨.of_earlier fun a v hv => ?_, AllFrames.initial (List.forall_mem_nil _) limit⟩
  simp [Store.initial, Heap.empty, Heap.elements] at hv

/-- What a variable holds has been created. -/
theorem Regular.has_cell (h : s.Regular) {ref : VariableRef} {cell : Cell} (hcell : s.cell? ref = some cell) :
    s.Has cell.value :=
  AllFrames.of_cell? (Q := fun x => s.Has x.2.value) h.cells hcell

theorem Regular.has_found (h : s.Regular) {env : Env} {name : String} {found : VariableRef × Cell}
    (hfound : s.findVariable? env name = some found) : s.Has found.2.value := by
  obtain ⟨scope, -, hscope⟩ := List.exists_of_findSome?_eq_some hfound
  obtain ⟨cell, hcell, rfl⟩ := Option.map_eq_some_iff.mp hscope
  exact h.has_cell hcell

/-- The elements of lists have been created; beyond them there is `Nil`. -/
theorem Regular.has_element (h : s.Regular) (l : ListRef) (i : Nat) : s.Has ((s.heap.elements l).getD i .nil) := by
  rw [List.getD_eq_getElem?_getD]
  cases helement : (s.heap.elements l)[i]? with
  | none => exact .of_kind nofun
  | some v => exact h.heap.closed l v (List.mem_of_getElem? helement)

/-- The scopes may change if no variable gets a value that refers to nothing. -/
theorem Regular.of_heap (h : s.Regular) (hheap : t.heap = s.heap)
    (hcells : t.Holding s.Has) : t.Regular := by
  refine ⟨hheap ▸ h.heap, fun scope frame hframe x hx => ?_⟩
  unfold Has
  rw [hheap]
  exact hcells scope frame hframe x hx

theorem Regular.updateScope (h : s.Regular) {scope : Nat} {change : RunFrame → Option RunFrame}
    (hchange : ∀ f f', change f = some f' → (∀ x ∈ f.vars, s.Has x.2.value) → ∀ x ∈ f'.vars, s.Has x.2.value)
    (ht : s.updateScope? scope change = some t) : t.Regular :=
  h.of_heap (heap_of_updateScope? ht) (AllFrames.updateScope h.cells hchange ht)

theorem Regular.setValue (h : s.Regular) (ref : VariableRef) (hvalue : s.Has v) : (s.setValue ref v).Regular := by
  refine h.of_heap rfl (AllFrames.setValue h.cells fun f hold x hx => ?_)
  obtain ⟨⟨name, cell⟩, hmem, rfl⟩ := List.mem_map.mp hx
  -- The cell is the one that gets the value, or it stays.
  simp only
  split
  · exact hvalue
  · exact hold _ hmem

/-- A change keeps a store regular, and takes no list away. -/
theorem Change.regular (hchange : s.Change t) (h : s.Regular) :
    t.Regular ∧ s.heap.lists.size ≤ t.heap.lists.size := by
  cases hchange with
  | defineVariable hvalue ht =>
    refine ⟨h.updateScope (fun frame changed hdefine hold => ?_) ht, (heap_of_updateScope? ht).symm ▸ Nat.le_refl _⟩
    obtain ⟨-, rfl⟩ := Frame.defineVariable?_eq_some.mp hdefine
    exact List.forall_mem_cons.mpr ⟨hvalue, hold⟩
  | defineFunction ht =>
    refine ⟨h.updateScope (fun frame changed hdefine hold => ?_) ht, (heap_of_updateScope? ht).symm ▸ Nat.le_refl _⟩
    obtain ⟨-, rfl⟩ := Frame.defineFunction?_eq_some.mp hdefine
    exact hold
  | setValue ref hvalue => exact ⟨h.setValue ref hvalue, Nat.le_refl _⟩
  | @allocate vs hvalues =>
    have hle : s.heap.lists.size ≤ (s.allocate vs).2.heap.lists.size := by simp [Store.allocate]
    exact ⟨⟨h.heap.allocate hvalues, fun _ _ hframe x hx => (h.cells _ _ hframe x hx).mono hle⟩, hle⟩
  | @setElement l i v hvalue hcontains =>
    have hsize : (s.setElement l i v).heap.lists.size = s.heap.lists.size := by simp [Store.setElement]
    refine ⟨⟨h.heap.setElement i hvalue hcontains, fun _ _ hframe x hx => ?_⟩, hsize.ge⟩
    exact (h.cells _ _ hframe x hx).mono hsize.ge
  | write text => exact ⟨h.of_heap rfl h.cells, Nat.le_refl _⟩
  | openScope => exact ⟨h.of_heap rfl (AllFrames.openScope h.cells (List.forall_mem_nil _)), Nat.le_refl _⟩
  | closeScope => exact ⟨h.of_heap rfl (AllFrames.closeScope h.cells), Nat.le_refl _⟩
  | forget scope => exact ⟨h.of_heap rfl (AllFrames.map h.cells fun _ hold => hold), Nat.le_refl _⟩

/-- What a single change keeps is kept by any number of them. -/
theorem Changes.regular (hchanges : s.Changes t) (h : s.Regular) :
    t.Regular ∧ s.heap.lists.size ≤ t.heap.lists.size := by
  induction hchanges with
  | refl => exact ⟨h, Nat.le_refl _⟩
  | tail _ hchange ih =>
    obtain ⟨hregular, hle⟩ := ih
    obtain ⟨hregular', hle'⟩ := hchange.regular hregular
    exact ⟨hregular', hle.trans hle'⟩

/-- A value that has been there is still there. -/
theorem Changes.has (hchanges : s.Changes t) (h : s.Regular) (hv : s.Has v) : t.Has v :=
  hv.mono (hchanges.regular h).2

end Store

/-! ## §3 Results of operators -/

/-- A result that may fail has a property if there is one. -/
def Gives {α : Type} (P : α → Prop) (x : Except RunError α) : Prop :=
  ∀ a, x = .ok a → P a

namespace Gives

variable {α β : Type} {P : α → Prop} {Q : β → Prop}

theorem ok {a : α} (h : P a) : Gives P (.ok a) := by
  rintro _ ⟨⟩
  exact h

theorem error {e : RunError} : Gives P (.error e) := nofun

theorem bind {x : Except RunError α} {f : α → Except RunError β} (hf : ∀ a, Gives Q (f a)) : Gives Q (x >>= f) := by
  cases x with
  | ok a => exact hf a
  | error e => exact error

theorem map {x : Except RunError α} {f : α → β} (hf : ∀ a, Q (f a)) : Gives Q (x.map f) := by
  cases x with
  | ok a => exact ok (hf a)
  | error e => exact error

end Gives

namespace Operation

variable {h : Heap} {op : Operator} {l r : Value} {offset : Nat}

theorem logic_gives : Gives (fun v => v.kind ≠ .list) (logic op l r offset) := by
  refine Gives.bind fun _ => Gives.bind fun _ => ?_
  cases op <;> first | exact .ok nofun | exact .error

theorem comparison_gives : Gives (fun v => v.kind ≠ .list) (comparison h op l r offset) := by
  unfold comparison
  cases op with
  | equal | notEqual => exact .ok nofun
  | less | greater => exact .bind fun _ => .ok nofun
  | and | or | add | sub | mul | div | pow => exact .error

theorem arithmetic_gives : Gives (fun v => v.kind ≠ .list) (arithmetic h op l r offset) := by
  unfold arithmetic
  split
  · exact .ok nofun
  · unfold numberArithmetic
    split
    · exact .map fun _ => nofun
    · exact .map fun _ => nofun
    · exact .error

theorem power_gives : Gives (fun v => v.kind ≠ .list) (power l r offset) := by
  refine Gives.bind fun _ => Gives.bind fun n => ?_
  cases l with
  | integer b => exact .ok nofun
  | decimal b =>
    simp only
    cases b.pow? n with
    | some d => exact .ok nofun
    | none => exact .error
  | nil | boolean | character | string | list => exact .error

/-- No operator yields a list. -/
theorem binary_gives : Gives (fun v => v.kind ≠ .list) (binary h op l r offset) := by
  unfold binary
  cases op with
  | and | or => exact logic_gives
  | equal | notEqual | less | greater => exact comparison_gives
  | add | sub | mul | div => exact arithmetic_gives
  | pow => exact power_gives

end Operation

/-! ## §4 Recorded runs -/

/-- What a statement returns has been created. -/
def FlowHas : Flow → Store → Prop
  | .normal, _ => True
  | .returned v, t => t.Has v

/-- The value that an expression yields or a statement returns has been created. -/
def Event.Fits : Event → Store → Prop
  | .yields _ v, t => t.Has v
  | .ends _ flow, t => FlowHas flow t
  | .enters _, _ | .begins _, _ | .calls _ _ _, _ | .declares _ _, _ => True

/-- A recorded run goes on by changes, and every new moment is reached by changes and is about values that have been
created. -/
structure Recorder.Advances (r r' : Recorder) : Prop where
  store : r.store.Changes r'.store
  moments : ∀ m ∈ r'.moments, m ∈ r.moments ∨ r.store.Changes m.store ∧ m.event.Fits m.store

namespace Recorder.Advances

variable {r r' r'' : Recorder}

theorem refl (r : Recorder) : r.Advances r :=
  ⟨.refl, fun _ hm => Or.inl hm⟩

theorem trans (h : r.Advances r') (h' : r'.Advances r'') : r.Advances r'' := by
  refine ⟨h.store.trans h'.store, fun m hm => ?_⟩
  rcases h'.moments m hm with hm | ⟨hchanges, hfits⟩
  · exact h.moments m hm
  · exact Or.inr ⟨h.store.trans hchanges, hfits⟩

/-- A change that records nothing. -/
theorem of_changes {s : Store} {o : Origins} (h : r.store.Changes s) :
    r.Advances { r with store := s, origins := o } :=
  ⟨h, fun _ hm => Or.inl hm⟩

end Recorder.Advances

/-- A sequence during which nothing is recorded. -/
theorem Traced.lift_bind {α β : Type} (x : Eval α) (f : α → Eval β) :
    Traced.lift (x >>= f) = Traced.lift x >>= fun a => Traced.lift (f a) := by
  funext r
  cases heq : x r.store with
  | error e t =>
    have hlift : Traced.lift x r = .error e { r with store := t } := by rw [Traced.lift, heq]
    rw [bind_of_error hlift, Traced.lift, bind_of_error heq]
  | ok a t =>
    have hlift : Traced.lift x r = .ok a { r with store := t } := by rw [Traced.lift, heq]
    rw [bind_of_ok hlift, Traced.lift, bind_of_ok heq]
    rfl

/-- From a regular store, an evaluation goes by changes and yields what is described. -/
def Proceeds {α : Type} (s : Store) (x : Traced α) (Q : α → Store → Prop) : Prop :=
  s.Regular → ∀ r : Recorder, r.store = s →
    match x r with
    | .ok a r' => r.Advances r' ∧ Q a r'.store
    | .error _ r' => r.Advances r'

namespace Proceeds

variable {α β : Type} {s : Store} {x : Traced α} {f : α → Traced β} {P Q : α → Store → Prop} {R : β → Store → Prop}

theorem pure {a : α} (h : Q a s) : Proceeds s (pure a) Q := by
  rintro - r rfl
  exact ⟨.refl r, h⟩

theorem stop {e : Stop} : Proceeds s (throw e : Traced α) Q :=
  fun _ r _ => .refl r

theorem bind (hx : Proceeds s x P)
    (hf : ∀ a t, s.Regular → s.Changes t → P a t → Proceeds t (f a) R) : Proceeds s (x >>= f) R := by
  rintro hs r rfl
  have hrun := hx hs r rfl
  cases heq : x r with
  | error e r' =>
    rw [heq] at hrun
    rw [bind_of_error heq]
    exact hrun
  | ok a r' =>
    rw [heq] at hrun
    rw [bind_of_ok heq]
    obtain ⟨hadvances, hP⟩ := hrun
    -- The second part begins in the regular store that the first part has reached.
    have hrest := hf a r'.store hs hadvances.store hP (hadvances.store.regular hs).1 r' rfl
    cases heq' : f a r' with
    | error e r'' =>
      rw [heq'] at hrest
      exact hadvances.trans hrest
    | ok b r'' =>
      rw [heq'] at hrest
      exact ⟨hadvances.trans hrest.1, hrest.2⟩

theorem mono (hx : Proceeds s x P) (h : ∀ a t, s.Regular → s.Changes t → P a t → Q a t) : Proceeds s x Q := by
  rintro hs r rfl
  have hrun := hx hs r rfl
  cases heq : x r with
  | error e r' =>
    rw [heq] at hrun
    exact hrun
  | ok a r' =>
    rw [heq] at hrun
    exact ⟨hrun.1, h a r'.store hs hrun.1.store hrun.2⟩

theorem discard (hx : Proceeds s x P) : Proceeds s (discard x) fun _ _ => True :=
  bind hx fun _ _ _ _ _ => pure trivial

theorem ite {c : Prop} [Decidable c] {x' : Traced α} (hx : c → Proceeds s x Q) (hx' : ¬ c → Proceeds s x' Q) :
    Proceeds s (if c then x else x') Q := by
  split
  next hc => exact hx hc
  next hc => exact hx' hc

/-! ## §5 Single steps -/

/-- A step that records nothing. -/
theorem lift {x : Eval α} (h : s.Regular → match x s with
    | .ok a t => s.Changes t ∧ Q a t
    | .error _ t => s.Changes t) : Proceeds s (Traced.lift x) Q := by
  rintro hs r rfl
  have hstep := h hs
  unfold Traced.lift
  cases heq : x r.store with
  | error e t =>
    rw [heq] at hstep
    exact .of_changes hstep
  | ok a t =>
    rw [heq] at hstep
    exact ⟨.of_changes hstep.1, hstep.2⟩

theorem get : Proceeds s (Traced.lift MonadState.get) fun a t => a = s ∧ t = s :=
  lift fun _ => ⟨.refl, rfl, rfl⟩

theorem fail {e : RunError} : Proceeds s (Traced.lift (Eval.fail e : Eval α)) Q :=
  lift fun _ => .refl

theorem ofExcept {x : Except RunError α} : Proceeds s (Traced.lift (Eval.ofExcept x)) fun a t => x = .ok a ∧ t = s := by
  apply lift
  intro _
  cases x with
  | ok a => exact ⟨.refl, rfl, rfl⟩
  | error e => exact .refl

theorem note (env : Env) (event : Event) (hfits : event.Fits s) :
    Proceeds s (Traced.note env event) fun _ t => t = s := by
  rintro - r rfl
  refine ⟨⟨.refl, fun m hm => ?_⟩, rfl⟩
  rcases List.mem_cons.mp hm with rfl | hm
  · exact Or.inr ⟨.refl, hfits⟩
  · exact Or.inl hm

theorem watch {env : Env} {before : Event} {after : α → Event} (hbefore : before.Fits s)
    (hafter : ∀ a t, Q a t → (after a).Fits t) (hx : Proceeds s x Q) :
    Proceeds s (Traced.watch env before after x) Q := by
  apply bind (note env before hbefore)
  intro _ t _ _ ht
  subst ht
  apply bind hx
  intro a t _ _ hQ
  apply bind (note env (after a) (hafter a t hQ))
  intro _ t' _ _ ht'
  subst ht'
  exact pure hQ

theorem resolve (env : Env) (name : String) (offset : Nat) :
    Proceeds s (Traced.lift (Eval.resolve env name offset)) fun found t =>
      s.findVariable? env name = some found ∧ t = s := by
  apply lift
  intro _
  cases hfound : s.findVariable? env name with
  | none =>
    rw [Eval.resolve_of_not_found hfound]
  | some found =>
    rw [Eval.resolve_of_found hfound]
    exact ⟨.refl, rfl, rfl⟩

theorem receiver (env : Env) (name : String) (nameOffset offset : Nat) :
    Proceeds s (Traced.lift (Eval.receiver env name nameOffset offset)) fun ref t =>
      (∃ cell, s.findVariable? env name = some (ref, cell) ∧ cell.mutable = true) ∧ t = s := by
  apply lift
  intro _
  cases hfound : s.findVariable? env name with
  | none =>
    rw [Eval.receiver_of_not_found hfound]
  | some found =>
    rw [Eval.receiver_of_found hfound]
    cases hmutable : found.2.mutable with
    | true => exact ⟨.refl, ⟨found.2, rfl, hmutable⟩, rfl⟩
    | false => exact .refl

theorem write (text : String) : Proceeds s (Traced.lift (Eval.write text)) fun _ _ => True := by
  apply lift
  intro _
  have hchanges : s.Changes { s with sink := (s.sink.write text).2 } := .single (.write text)
  rw [Eval.write_eq]
  -- Whether or not everything was taken, the sink is what has changed.
  cases (s.sink.write text).1 with
  | true => exact ⟨hchanges, trivial⟩
  | false => exact hchanges

theorem valueOf (ref : VariableRef) :
    Proceeds s (Traced.lift (Eval.valueOf ref)) fun v t => v = s.valueOf ref ∧ t = s :=
  lift fun _ => ⟨.refl, rfl, rfl⟩

theorem builtin (which : Builtin) (arguments : List Value) (offset : Nat) :
    Proceeds s (Traced.lift (Eval.builtin which arguments offset)) fun v t => t.Has v := by
  unfold Eval.builtin
  split
  next v =>
    rw [Traced.lift_bind]
    apply bind get
    intro store t _ _ _
    rw [Traced.lift_bind]
    apply bind (write _)
    intro _ t' _ _ _
    exact pure (.of_kind nofun)
  next => exact fail

theorem functions (fs : List Function) : Proceeds s (Traced.lift (Eval.functions fs)) fun _ _ => True := by
  induction fs generalizing s with
  | nil => exact pure trivial
  | cons f rest ih =>
    unfold Eval.functions
    rw [Traced.lift_bind]
    have hdefine : Proceeds s (Traced.lift (Eval.defineFunction f)) fun _ _ => True := by
      apply lift
      intro _
      unfold Eval.defineFunction
      rw [get_bind]
      cases ht : s.defineFunction? 0 f.name f.arity (.defined f (some .globals)) with
      | none => exact .refl
      | some t => exact ⟨.single (.defineFunction ht), trivial⟩
    apply bind hdefine
    intro _ t _ _ _
    exact ih

theorem define (env : Env) (node : Node) (name : String) {cell : Cell} (hcell : s.Has cell.value) :
    Proceeds s (Traced.define env node name cell) fun _ _ => True := by
  unfold Traced.define
  have hdefine : Proceeds s (Traced.lift (Eval.define env name cell node.offset)) fun _ _ => True := by
    apply lift
    intro _
    unfold Eval.define
    rw [get_bind]
    cases ht : s.defineVariable? ⟨env.headD 0, name⟩ cell with
    | none => exact .refl
    | some t => exact ⟨.single (.defineVariable hcell ht), trivial⟩
  apply bind hdefine
  intro _ t _ _ _
  -- Which declaration created the variable is only recorded.
  have horigins : Proceeds t (modify fun r =>
      { r with origins := r.origins.modify (env.headD 0) fun names => (name, node.id) :: names }) fun _ _ => True := by
    rintro - r rfl
    exact ⟨.of_changes .refl, trivial⟩
  exact bind horigins fun _ _ _ _ _ => (note env (.declares node name) trivial).mono fun _ _ _ _ _ => trivial

theorem newList {vs : List Value} (hvs : ∀ v ∈ vs, s.Has v) :
    Proceeds s (Traced.lift (Eval.newList vs)) fun v t => t.Has v := by
  refine lift fun _ => ⟨.single (.allocate hvs), .list ?_⟩
  simp

theorem inScope {body : Env → Traced α} {env : Env}
    (h : Proceeds s.openScope (body (s.scopes.size :: env)) fun a t => Q a t.closeScope) :
    Proceeds s (Traced.inScope env body) Q := by
  rintro hs r rfl
  have hopen : r.store.Changes r.store.openScope := .single .openScope
  have hrun := h (hopen.regular hs).1 { r with store := r.store.openScope, origins := r.origins.push [] } rfl
  have hbefore : r.Advances { r with store := r.store.openScope, origins := r.origins.push [] } := .of_changes hopen
  unfold Traced.inScope
  cases heq : body (r.store.scopes.size :: env)
      { r with store := r.store.openScope, origins := r.origins.push [] } with
  | error e r' =>
    rw [heq] at hrun
    exact (hbefore.trans hrun).trans (.of_changes (.single .closeScope))
  | ok a r' =>
    rw [heq] at hrun
    exact ⟨(hbefore.trans hrun.1).trans (.of_changes (.single .closeScope)), hrun.2⟩

/-! ## §6 Sequences of expressions and statements -/

/-- An evaluator of expressions goes by changes and yields values that exist. -/
def Values (eval : Expr → Traced Value) : Prop :=
  ∀ s e, Proceeds s (eval e) fun v t => t.Has v

/-- An evaluator of statements goes by changes and returns values that exist. -/
def Flows (exec : Statement → Traced Flow) : Prop :=
  ∀ s st, Proceeds s (exec st) FlowHas

section

variable {eval : Expr → Traced Value} (heval : Values eval)

include heval

theorem all (es : List Expr) : Proceeds s (Traced.all eval es) fun vs t => ∀ v ∈ vs, t.Has v := by
  induction es generalizing s with
  | nil => exact pure fun v hv => nomatch hv
  | cons e rest ih =>
    apply bind (heval s e)
    intro v t _ _ hv
    apply bind ih
    intro vs t' ht hchanges hvs
    -- The first value is still there when the others have been evaluated.
    exact pure (List.forall_mem_cons.mpr ⟨hchanges.has ht hv, hvs⟩)

theorem optional (e : Option Expr) : Proceeds s (Traced.optional eval e) fun v t => t.Has v := by
  cases e with
  | none => exact pure (.of_kind nofun)
  | some e => exact heval s e

theorem binary (op : Operator) (left right : Expr) (offset : Nat) :
    Proceeds s (Traced.binary eval op left right offset) fun v t => t.Has v := by
  apply bind (heval s left)
  intro l t _ _ hl
  refine ite (fun _ => ?_) fun _ => ?_
  · apply bind ofExcept
    rintro decided t' _ _ ⟨-, rfl⟩
    refine ite (fun _ => pure hl) fun _ => bind (heval _ right) fun r t'' _ _ _ => ?_
    exact ofExcept.mono fun v _ _ _ hv => .of_kind (Operation.logic_gives v hv.1)
  · apply bind (heval t right)
    intro r t' _ _ _
    apply bind get
    rintro _ _ _ _ ⟨rfl, rfl⟩
    exact ofExcept.mono fun v _ _ _ hv => .of_kind (Operation.binary_gives v hv.1)

theorem element (env : Env) (name : String) (index : Expr) (offset : Nat) :
    Proceeds s (Traced.element eval env name index offset) fun v t => t.Has v := by
  apply bind (resolve env name offset)
  rintro found _ _ _ ⟨-, rfl⟩
  apply bind (heval _ index)
  intro position t _ _ _
  apply bind (valueOf found.1)
  rintro held _ _ _ ⟨-, rfl⟩
  apply bind ofExcept
  rintro list _ _ _ ⟨-, rfl⟩
  apply bind get
  rintro _ _ ht _ ⟨rfl, rfl⟩
  apply bind ofExcept
  rintro n _ _ _ ⟨-, rfl⟩
  apply bind ofExcept
  rintro i _ _ _ ⟨-, rfl⟩
  exact pure (ht.has_element list i)

theorem storeElement (ref : VariableRef) (index value receiver : Expr) (offset : Nat) :
    Proceeds s (Traced.storeElement eval ref index value receiver offset) fun _ _ => True := by
  apply bind (heval s index)
  intro position t _ _ _
  apply bind (heval t value)
  intro v t' _ _ hv
  apply bind (valueOf ref)
  rintro held _ _ _ ⟨-, rfl⟩
  apply bind ofExcept
  rintro list _ _ _ ⟨-, rfl⟩
  apply bind get
  rintro _ _ _ _ ⟨rfl, rfl⟩
  refine ite (fun _ => fail) fun hcontains => ?_
  apply bind ofExcept
  rintro n _ _ _ ⟨-, rfl⟩
  apply bind ofExcept
  rintro i _ _ _ ⟨-, rfl⟩
  -- Nothing has happened since the search, so the value still does not lead to the list.
  exact lift fun _ => ⟨.single (.setElement i hv (Bool.eq_false_iff.mpr hcontains)), trivial⟩

theorem assign (env : Env) (target value : Expr) (offset : Nat) :
    Proceeds s (Traced.assign eval env target value offset) fun _ _ => True := by
  cases target with
  | «variable» node name =>
    apply bind (receiver env name _ _)
    rintro ref _ _ _ -
    apply bind (heval _ value)
    intro v t _ _ hv
    exact lift fun _ => ⟨.single (.setValue ref hv), trivial⟩
  | element node name index =>
    apply bind (receiver env name _ _)
    rintro ref _ _ _ -
    exact storeElement heval ref index value _ offset
  | literal | group | binary | call | list => exact fail

theorem select (subject : Value) (fallback : Option (List Statement)) (cases : List Case) :
    Proceeds s (Traced.select eval subject fallback cases) fun _ _ => True := by
  induction cases generalizing s fallback with
  | nil => exact pure trivial
  | cons arm rest ih =>
    obtain ⟨offset, value, body⟩ := arm
    cases value with
    | none => exact ih _
    | some value =>
      apply bind (heval s value)
      intro v t _ _ _
      apply bind get
      intro _ t' _ _ _
      exact ite (fun _ => pure trivial) fun _ => ih fallback

end

theorem inOrder {exec : Statement → Traced Flow} (hexec : Flows exec) (body : List Statement) :
    Proceeds s (Traced.inOrder exec body) FlowHas := by
  induction body generalizing s with
  | nil => exact pure trivial
  | cons first rest ih =>
    apply bind (hexec s first)
    intro flow t _ _ hflow
    cases flow with
    | returned v => exact pure hflow
    | normal => exact ih

theorem flowHas_closeScope {flow : Flow} {t : Store} (h : FlowHas flow t) : FlowHas flow t.closeScope := by
  cases flow with
  | normal => trivial
  | returned v => exact h

theorem block {exec : Env → Statement → Traced Flow} (hexec : ∀ env, Flows (exec env)) (env : Env)
    (body : List Statement) : Proceeds s (Traced.block exec env body) FlowHas :=
  inScope ((inOrder (hexec _) body).mono fun _ _ _ _ => flowHas_closeScope)

theorem bindParameters (env : Env) (ps : List Parameter) {values : List Value} (hvalues : ∀ v ∈ values, s.Has v) :
    Proceeds s (Traced.bindParameters env ps values) fun _ _ => True := by
  induction ps generalizing s values with
  | nil => exact pure trivial
  | cons p rest ih =>
    cases values with
    | nil => exact pure trivial
    | cons v values =>
      obtain ⟨hv, hvalues⟩ := List.forall_mem_cons.mp hvalues
      apply bind (define env p.node p.name hv)
      intro _ t hs hchanges _
      exact ih fun v hv => hchanges.has hs (hvalues v hv)

/-! ## §7 Everything together -/

/-- All evaluators with some fuel go by changes. -/
structure Everywhere (fuel : Nat) : Prop where
  expression : ∀ env, Values (Traced.expression fuel env)
  call {s : Store} : ∀ env name (arguments : List Value) offset, (∀ v ∈ arguments, s.Has v) →
    Proceeds s (Traced.call fuel env name arguments offset) fun v t => t.Has v
  statement : ∀ env, Flows (Traced.statement fuel env)
  loop {s : Store} : ∀ env condition body, Proceeds s (Traced.loop fuel env condition body) FlowHas

namespace Everywhere

variable {n : Nat}

theorem expression_succ (h : Everywhere n) (env : Env) : Values (Traced.expression (n + 1) env) := by
  intro s e
  refine watch trivial (fun _ _ hv => hv) ?_
  cases e with
  | literal node value => exact pure (.of_kind (by cases value <;> nofun))
  | group node inner => exact h.expression env s inner
  | binary node op left right => exact binary (h.expression env) op left right node.offset
  | «variable» node name =>
    apply bind (resolve env name node.offset)
    rintro found _ hs _ ⟨hfound, rfl⟩
    exact pure (hs.has_found hfound)
  | element node name index => exact element (h.expression env) env name index node.offset
  | call node name arguments =>
    apply bind (all (h.expression env) arguments)
    intro values t _ _ hvalues
    apply bind (note env (.calls node name values.length) trivial)
    intro _ t' _ _ ht
    subst ht
    exact h.call env name values node.offset hvalues
  | list node elements =>
    apply bind (all (h.expression env) elements)
    intro values t _ _ hvalues
    exact newList hvalues

theorem call_succ (h : Everywhere n) (env : Env) (name : String) {arguments : List Value} (offset : Nat)
    (harguments : ∀ v ∈ arguments, s.Has v) :
    Proceeds s (Traced.call (n + 1) env name arguments offset) fun v t => t.Has v := by
  apply bind get
  rintro _ _ _ _ ⟨rfl, rfl⟩
  split
  · exact builtin _ arguments offset
  next f closure _ =>
    refine inScope (Proceeds.mono ?_ fun v t _ _ (hv : t.Has v) => hv)
    apply bind (bindParameters (s := Store.openScope _) _ f.parameters harguments)
    intro _ t _ _ _
    apply bind (inOrder (h.statement _) f.body)
    intro flow t' _ _ hflow
    cases flow with
    | returned v => exact pure hflow
    | normal => exact pure (.of_kind nofun)
  · exact fail
  · exact fail

theorem statement_succ (h : Everywhere n) (env : Env) : Flows (Traced.statement (n + 1) env) := by
  intro s st
  refine watch trivial (fun _ _ hflow => hflow) ?_
  cases st with
  | expression offset e =>
    apply bind (discard (h.expression env s e))
    intro _ t _ _ _
    exact pure trivial
  | declaration node name type value =>
    apply bind (optional (h.expression env) value)
    intro v t _ _ hv
    apply bind (define env node name hv)
    intro _ t' _ _ _
    exact pure trivial
  | assignment offset target value =>
    apply bind (assign (h.expression env) env target value offset)
    intro _ t _ _ _
    exact pure trivial
  | conditional offset condition onTrue onFalse =>
    apply bind (h.expression env s condition)
    intro test t _ _ _
    apply bind ofExcept
    intro holds t' _ _ _
    exact ite (fun _ => pure trivial) fun _ => block h.statement env _
  | switch offset condition cases =>
    apply bind (h.expression env s condition)
    intro subject t _ _ _
    apply bind (select (h.expression env) subject none cases)
    intro body t' _ _ _
    cases body with
    | none => exact pure trivial
    | some body => exact block h.statement env body
  | loop offset condition body => exact h.loop env condition body
  | returning offset value =>
    apply bind (h.expression env s value)
    intro v t _ _ hv
    exact pure hv

theorem loop_succ (h : Everywhere n) (env : Env) (condition : Expr) (body : List Statement) :
    Proceeds s (Traced.loop (n + 1) env condition body) FlowHas := by
  apply bind (h.expression env s condition)
  intro test t _ _ _
  apply bind ofExcept
  intro holds t' _ _ _
  refine ite (fun _ => ?_) fun _ => pure trivial
  apply bind (block h.statement env body)
  intro flow t'' _ _ hflow
  cases flow with
  | returned v => exact pure hflow
  | normal => exact h.loop env condition body

end Everywhere

/-- With any amount of fuel, all evaluators go by changes. -/
theorem everything (n : Nat) : Everywhere n := by
  induction n with
  | zero => exact ⟨fun _ _ _ => stop, fun _ _ _ _ _ => stop, fun _ _ _ => stop, fun _ _ _ => stop⟩
  | succ n ih =>
    exact ⟨ih.expression_succ, fun env name _ offset => ih.call_succ env name offset, ih.statement_succ, ih.loop_succ⟩

theorem globals (fuel : Nat) (gs : List Global) : Proceeds s (Traced.globals fuel gs) fun _ _ => True := by
  induction gs generalizing s with
  | nil => exact pure trivial
  | cons g rest ih =>
    apply bind (optional ((everything fuel).expression .globals) g.value)
    intro v t _ _ hv
    apply bind (define .globals g.node g.name hv)
    intro _ t' _ _ _
    exact ih

theorem program (fuel : Nat) (p : Program) : Proceeds s (Traced.program fuel p) fun v t => t.Has v := by
  apply bind (globals fuel p.globals)
  intro _ t _ _ _
  apply bind (functions p.functions)
  intro _ t' _ _ _
  exact (everything fuel).call .globals "main" [] _ nofun

end Proceeds

end BlockLang
