import BlockLang.Proofs.Run.Changes
import BlockLang.Proofs.Run.Truncation

/-!
# Footprints

What an evaluation can do to the scopes that are open when it begins: in which of them it may define names, and the
variables of which it may assign.  A statement defines names in the innermost scope of its environment and assigns
variables of the environment.  An expression can do something only by calling functions, and these are defined among
the globals, so apart from the scopes that a call opens and closes itself, it reaches no variables but globals.

Only mutable variables are ever assigned, and no scope and no name goes away.  All this is shown from any store whose
functions are defined among the globals, which is so at every moment of a run of a program.

## Main definitions

- `Footprint`: scopes that may get names, and scopes whose variables may be assigned.
- `Store.Keeps`: what is left of a store within a footprint.
- `Touches`: a recorded evaluation stays within a footprint, at all of its moments.

## Main statements

- `Touches.everything`: the footprints of all evaluators.
- `Program.stays_record`: that of a run of a program.
-/

namespace BlockLang

open Stateful

/-! ## §1 Footprints -/

/-- In which scopes names may be defined, and the variables of which scopes may be assigned. -/
structure Footprint where
  grows : Nat → Prop
  writes : Nat → Prop

namespace Footprint

/-- The footprint of expressions and calls. -/
def ofCall : Footprint := ⟨fun _ => False, fun i => i = 0⟩

/-- The footprint of blocks in an environment. -/
def ofBlock (env : Env) : Footprint := ⟨fun _ => False, fun i => i = 0 ∨ i ∈ env⟩

/-- The footprint of statements in an environment. -/
def ofStatement (env : Env) : Footprint := ⟨fun i => i = env.headD 0, fun i => i = 0 ∨ i ∈ env⟩

/-- What one footprint allows in the first `n` scopes, the other one does. -/
def Within (n : Nat) (F G : Footprint) : Prop :=
  ∀ i < n, (F.grows i → G.grows i) ∧ (F.writes i → G.writes i)

variable {n : Nat} {env : Env}

theorem ofCall_within_ofBlock : ofCall.Within n (ofBlock env) :=
  fun _ _ => ⟨id, .inl⟩

theorem ofCall_within_ofStatement : ofCall.Within n (ofStatement env) :=
  fun _ _ => ⟨False.elim, .inl⟩

theorem ofBlock_within_ofStatement : (ofBlock env).Within n (ofStatement env) :=
  fun _ _ => ⟨False.elim, id⟩

/-- The statements of a block work in its own scope, and otherwise in the environment around it. -/
theorem ofStatement_within_ofBlock : (ofStatement (n :: env)).Within n (ofBlock env) := by
  intro i hi
  refine ⟨fun hgrows => absurd hgrows hi.ne, fun hwrites => hwrites.imp_right fun hmem => ?_⟩
  exact (List.mem_cons.mp hmem).resolve_left hi.ne

/-- The statements of a function work in its own scope, and otherwise among the globals. -/
theorem ofStatement_within_ofCall : (ofStatement (n :: Env.globals)).Within n ofCall := by
  intro i hi
  obtain ⟨hgrows, hwrites⟩ := ofStatement_within_ofBlock i hi
  exact ⟨hgrows, fun h => (hwrites h).elim id List.mem_singleton.mp⟩

end Footprint

/-! ## §2 What is left of a store -/

/-- A cell is still what it was, but for its value if that may be written and the cell is mutable. -/
structure Cell.Keeps (written : Prop) (c c' : Cell) : Prop where
  mutable_eq : c'.mutable = c.mutable
  value_eq : ¬ (c.mutable = true ∧ written) → c'.value = c.value

/-- All variables of a frame are still there; where names may not be defined, there are no others, and the functions are
the same. -/
structure RunFrame.Keeps (grown written : Prop) (f f' : RunFrame) : Prop where
  cell {name : String} {c : Cell} : f.findVariable? name = some c →
    ∃ c', f'.findVariable? name = some c' ∧ c.Keeps written c'
  absent {name : String} : ¬ grown → f.findVariable? name = none → f'.findVariable? name = none
  functions : ¬ grown → f'.funs = f.funs

/-- All scopes are still open and have changed only as the footprint allows. -/
def Store.Keeps (F : Footprint) (s t : Store) : Prop :=
  ∀ (i : Nat) (f : RunFrame), s.scopes[i]? = some f →
    ∃ f' : RunFrame, t.scopes[i]? = some f' ∧ f.Keeps (F.grows i) (F.writes i) f'

/-- Every function of the frame was defined among the globals. -/
def RunFrame.Rooted (f : RunFrame) : Prop :=
  ∀ x ∈ f.funs, ∀ g closure, x.2 = .defined g (some closure) → closure = .globals

/-- Every function that can be called was defined among the globals. -/
def Store.Rooted (s : Store) : Prop :=
  ∀ (i : Nat) (frame : RunFrame), s.scopes[i]? = some frame → ∀ x ∈ frame.funs, ∀ f closure,
    x.2 = .defined f (some closure) → closure = .globals

namespace Cell.Keeps

variable {written written' : Prop} {c c' c'' : Cell}

theorem refl (c : Cell) : c.Keeps written c :=
  ⟨rfl, fun _ => rfl⟩

theorem trans (h : c.Keeps written c') (h' : c'.Keeps written c'') : c.Keeps written c'' := by
  refine ⟨h'.mutable_eq.trans h.mutable_eq, fun hnot => ?_⟩
  have hnot' : ¬ (c'.mutable = true ∧ written) := by rwa [h.mutable_eq]
  exact (h'.value_eq hnot').trans (h.value_eq hnot)

theorem mono (h : c.Keeps written c') (himp : written → written') : c.Keeps written' c' :=
  ⟨h.mutable_eq, fun hnot => h.value_eq fun hwritten => hnot (hwritten.imp_right himp)⟩

/-- Where nothing is written, or nothing can be, the cell is the same. -/
theorem eq (h : c.Keeps written c') (hnot : ¬ (c.mutable = true ∧ written)) : c' = c := by
  obtain ⟨mutable, value⟩ := c
  obtain ⟨mutable', value'⟩ := c'
  have hmutable : mutable' = mutable := h.mutable_eq
  have hvalue : value' = value := h.value_eq hnot
  rw [hmutable, hvalue]

end Cell.Keeps

/-- Changing what is kept for a variable changes the look-up of its name alone. -/
theorem Frame.findVariable?_updateVariable {V F : Type} (f : Frame V F) (name : String) (change : V → V) (m : String) :
    (f.updateVariable name change).findVariable? m =
      if m = name then (f.findVariable? m).map change else f.findVariable? m := by
  obtain ⟨vars, funs⟩ := f
  simp only [updateVariable, findVariable?]
  induction vars with
  | nil => simp
  | cons x rest ih =>
    obtain ⟨n, v⟩ := x
    by_cases hm : m = n
    · subst hm
      by_cases hname : m = name <;> simp [hname]
    · have hb : (m == n) = false := by simpa using hm
      have hfirst : (if n = name then (n, change v) else (n, v)).1 = n := by split_ifs <;> rfl
      rw [List.map_cons, List.lookup_cons, List.lookup_cons, hfirst, hb]
      exact ih

namespace RunFrame.Keeps

variable {grown grown' written written' : Prop} {f f' f'' : RunFrame} {name : String}

theorem refl (f : RunFrame) : f.Keeps grown written f :=
  ⟨fun h => ⟨_, h, Cell.Keeps.refl _⟩, fun _ h => h, fun _ => rfl⟩

theorem trans (h : f.Keeps grown written f') (h' : f'.Keeps grown written f'') : f.Keeps grown written f'' where
  cell hcell := by
    obtain ⟨c', hcell', hkeeps⟩ := h.cell hcell
    obtain ⟨c'', hcell'', hkeeps'⟩ := h'.cell hcell'
    exact ⟨c'', hcell'', hkeeps.trans hkeeps'⟩
  absent hgrown hnone := h'.absent hgrown (h.absent hgrown hnone)
  functions hgrown := (h'.functions hgrown).trans (h.functions hgrown)

theorem mono (h : f.Keeps grown written f') (hgrown : grown → grown') (hwritten : written → written') :
    f.Keeps grown' written' f' where
  cell hcell := by
    obtain ⟨c', hcell', hkeeps⟩ := h.cell hcell
    exact ⟨c', hcell', hkeeps.mono hwritten⟩
  absent hnot := h.absent (mt hgrown hnot)
  functions hnot := h.functions (mt hgrown hnot)

theorem defineVariable (hgrown : grown) {c : Cell} (h : f.defineVariable? name c = some f') :
    f.Keeps grown written f' where
  cell {m _} hcell := by
    rw [Frame.findVariable?_of_defineVariable? h]
    -- A name that is taken cannot be defined again.
    have hne : m ≠ name := by
      rintro rfl
      cases (Frame.defineVariable?_eq_some.mp h).1.symm.trans hcell
    rw [if_neg hne]
    exact ⟨_, hcell, .refl _⟩
  absent hnot := absurd hgrown hnot
  functions hnot := absurd hgrown hnot

theorem defineFunction (hgrown : grown) {arity : Nat} {g : Callable} (h : f.defineFunction? name arity g = some f') :
    f.Keeps grown written f' where
  cell hcell := by
    rw [Frame.findVariable?_of_defineFunction? h]
    exact ⟨_, hcell, .refl _⟩
  absent hnot := absurd hgrown hnot
  functions hnot := absurd hgrown hnot

/-- A mutable variable may be assigned. -/
theorem setValue (hcell : ∀ c, f.findVariable? name = some c → c.mutable = true ∧ written) (v : Value) :
    f.Keeps grown written (f.updateVariable name fun c => { c with value := v }) where
  cell {m c} hfound := by
    rw [Frame.findVariable?_updateVariable]
    split_ifs with hm
    · subst hm
      rw [hfound]
      exact ⟨_, rfl, rfl, fun hnot => absurd (hcell c hfound) hnot⟩
    · exact ⟨c, hfound, .refl c⟩
  absent {m} _ hnone := by
    rw [Frame.findVariable?_updateVariable, hnone]
    split_ifs <;> rfl
  functions _ := rfl

end RunFrame.Keeps

namespace Store

variable {F G : Footprint} {s t u : Store}

/-- A name stands for a variable of that name in a scope of the environment. -/
theorem of_findVariable? {env : Env} {name : String} {ref : VariableRef} {c : Cell}
    (h : s.findVariable? env name = some (ref, c)) : ref.scope ∈ env ∧ ref.name = name ∧ s.cell? ref = some c := by
  obtain ⟨scope, hmem, hscope⟩ := List.exists_of_findSome?_eq_some h
  obtain ⟨cell, hcell, heq⟩ := Option.map_eq_some_iff.mp hscope
  cases heq
  exact ⟨hmem, rfl, hcell⟩

namespace Keeps

theorem of_scopes (h : t.scopes = s.scopes) : s.Keeps F t :=
  fun _ f hf => ⟨f, h ▸ hf, .refl f⟩

theorem refl (s : Store) : s.Keeps F s :=
  of_scopes rfl

theorem trans (h : s.Keeps F t) (h' : t.Keeps F u) : s.Keeps F u := by
  intro i f hf
  obtain ⟨f', hf', hkeeps⟩ := h i f hf
  obtain ⟨f'', hf'', hkeeps'⟩ := h' i f' hf'
  exact ⟨f'', hf'', hkeeps.trans hkeeps'⟩

theorem mono (h : s.Keeps F t) (hwithin : F.Within s.scopes.size G) : s.Keeps G t := by
  intro i f hf
  obtain ⟨f', hf', hkeeps⟩ := h i f hf
  obtain ⟨hgrows, hwrites⟩ := hwithin i (Array.getElem?_eq_some_iff.mp hf).1
  exact ⟨f', hf', hkeeps.mono hgrows hwrites⟩

/-- What has become of a variable. -/
theorem cell? (h : s.Keeps F t) {ref : VariableRef} {c : Cell} (hcell : s.cell? ref = some c) :
    ∃ c', t.cell? ref = some c' ∧ c.Keeps (F.writes ref.scope) c' := by
  unfold Store.cell? at hcell ⊢
  cases hf : s.scopes[ref.scope]? with
  | none => simp [hf] at hcell
  | some f =>
    simp only [hf] at hcell
    obtain ⟨f', hf', hkeeps⟩ := h ref.scope f hf
    simp only [hf']
    exact hkeeps.cell hcell

/-- One frame is changed. -/
theorem updateScope {scope : Nat} {change : RunFrame → Option RunFrame}
    (hchange : ∀ f f', s.scopes[scope]? = some f → change f = some f' →
      RunFrame.Keeps (F.grows scope) (F.writes scope) f f')
    (h : s.updateScope? scope change = some t) : s.Keeps F t := by
  obtain ⟨old, changed, hold, hchanged, rfl⟩ := updateScope?_eq_some.mp h
  intro i f hf
  by_cases hi : scope = i
  · subst hi
    obtain rfl : old = f := Option.some.inj (hold.symm.trans hf)
    refine ⟨changed, ?_, hchange old changed hold hchanged⟩
    simp [(Array.getElem?_eq_some_iff.mp hold).1]
  · exact ⟨f, by simpa [hi] using hf, .refl f⟩

theorem setValue {ref : VariableRef} (hcell : ∀ c, s.cell? ref = some c → c.mutable = true)
    (hwrites : F.writes ref.scope) (v : Value) : s.Keeps F (s.setValue ref v) := by
  intro i f hf
  by_cases hi : ref.scope = i
  · subst hi
    refine ⟨f.updateVariable ref.name fun c => { c with value := v }, ?_,
      .setValue (fun c hc => ⟨hcell c ?_, hwrites⟩) v⟩
    · simp [Store.setValue, Array.getElem?_modify, hf]
    · simp [Store.cell?, hf, hc]
  · exact ⟨f, by simpa [Store.setValue, Array.getElem?_modify, hi] using hf, .refl f⟩

theorem of_openScope (h : s.openScope.Keeps F t) : s.Keeps F t := by
  intro i f hf
  have hi : i < s.scopes.size := (Array.getElem?_eq_some_iff.mp hf).1
  apply h i f
  rw [← hf]
  exact (Array.getElem?_push_lt hi).trans (Array.getElem?_eq_getElem hi).symm

theorem closeScope (h : s.Keeps F t) (hsize : s.scopes.size < t.scopes.size) : s.Keeps F t.closeScope := by
  intro i f hf
  have hi : i < s.scopes.size := (Array.getElem?_eq_some_iff.mp hf).1
  obtain ⟨f', hf', hkeeps⟩ := h i f hf
  refine ⟨f', ?_, hkeeps⟩
  change t.scopes.pop[i]? = some f'
  rw [Array.getElem?_pop, if_pos (by omega), hf']

end Keeps

namespace Rooted

theorem initial (limit : Option Nat) : (Store.initial limit).Rooted :=
  -- There is no function but the builtin.
  AllFrames.initial (List.forall_mem_singleton.mpr nofun) limit

/-- A function that a name stands for sees the globals and what it defines itself. -/
theorem found (h : s.Rooted) {env closure : Env} {name : String} {arity : Nat} {f : Function}
    (hfind : s.findFunction? env name arity = some (.defined f (some closure))) : closure = .globals :=
  AllFrames.of_findFunction? h hfind f closure rfl

theorem of_scopes (h : s.Rooted) (hscopes : t.scopes = s.scopes) : t.Rooted :=
  fun i frame hframe => h i frame (hscopes ▸ hframe)

theorem openScope (h : s.Rooted) : s.openScope.Rooted :=
  AllFrames.openScope h (List.forall_mem_nil _)

theorem closeScope (h : s.Rooted) : s.closeScope.Rooted :=
  AllFrames.closeScope h

theorem setValue (h : s.Rooted) (ref : VariableRef) (v : Value) : (s.setValue ref v).Rooted :=
  AllFrames.setValue h fun _ hold => hold

end Rooted

/-- The store has kept what the footprint does not allow to change, and functions are still defined among the
globals. -/
structure Stays (F : Footprint) (s t : Store) : Prop where
  keeps : s.Keeps F t
  rooted : t.Rooted

theorem Stays.trans (h : s.Stays F t) (h' : t.Stays F u) : s.Stays F u :=
  ⟨h.keeps.trans h'.keeps, h'.rooted⟩

theorem Stays.mono (h : s.Stays F t) (hwithin : F.Within s.scopes.size G) : s.Stays G t :=
  ⟨h.keeps.mono hwithin, h.rooted⟩

end Store

/-! ## §3 Recorded evaluations -/

/-- A recorded run has stayed within a footprint, at all of its new moments and at its end, when no more scopes are open
than before. -/
structure Recorder.Stays (F : Footprint) (r r' : Recorder) : Prop where
  store : r.store.Stays F r'.store
  size_eq : r'.store.scopes.size = r.store.scopes.size
  moments : ∃ later, r'.moments = later ++ r.moments ∧ ∀ m ∈ later, r.store.Stays F m.store

namespace Recorder.Stays

variable {F G : Footprint} {r r' r'' : Recorder}

/-- Nothing has been recorded. -/
theorem of_store (h : r.store.Stays F r'.store) (hsize : r'.store.scopes.size = r.store.scopes.size)
    (hmoments : r'.moments = r.moments) : r.Stays F r' :=
  ⟨h, hsize, [], hmoments, nofun⟩

theorem refl (h : r.store.Rooted) : r.Stays F r :=
  of_store ⟨.refl _, h⟩ rfl rfl

theorem trans (h : r.Stays F r') (h' : r'.Stays F r'') : r.Stays F r'' := by
  obtain ⟨later, hmoments, hlater⟩ := h.moments
  obtain ⟨later', hmoments', hlater'⟩ := h'.moments
  refine ⟨h.store.trans h'.store, h'.size_eq.trans h.size_eq, later' ++ later, ?_, ?_⟩
  · rw [hmoments', hmoments, List.append_assoc]
  · exact List.forall_mem_append.mpr ⟨fun m hm => h.store.trans (hlater' m hm), hlater⟩

theorem mono (h : r.Stays F r') (hwithin : F.Within r.store.scopes.size G) : r.Stays G r' := by
  obtain ⟨later, hmoments, hlater⟩ := h.moments
  exact ⟨h.store.mono hwithin, h.size_eq, later, hmoments, fun m hm => (hlater m hm).mono hwithin⟩

end Recorder.Stays

/-- However a recorded evaluation ends, it has stayed within the footprint. -/
def Touches {α : Type} (F : Footprint) (r : Recorder) (x : Traced α) : Prop :=
  r.store.Rooted → r.Stays F (state (x r))

namespace Touches

variable {α β : Type} {F G : Footprint} {r : Recorder} {x : Traced α} {f : α → Traced β}

theorem pure (a : α) : Touches F r (pure a) :=
  .refl

theorem stop (e : Stop) : Touches F r (throw e : Traced α) :=
  .refl

/-- Functions may be taken to be defined among the globals. -/
theorem of_rooted (h : r.store.Rooted → Touches F r x) : Touches F r x :=
  fun hr => h hr hr

theorem mono (hx : Touches F r x) (hwithin : F.Within r.store.scopes.size G) : Touches G r x :=
  fun hr => (hx hr).mono hwithin

theorem bind (hx : Touches F r x)
    (hf : ∀ a r', x r = .ok a r' → r.store.Keeps F r'.store → Touches F r' (f a)) : Touches F r (x >>= f) := by
  intro hr
  have hfirst := hx hr
  cases hrun : x r with
  | error e r' =>
    rw [hrun] at hfirst
    rw [bind_of_error hrun]
    exact hfirst
  | ok a r' =>
    rw [hrun] at hfirst
    rw [bind_of_ok hrun]
    exact hfirst.trans (hf a r' hrun hfirst.store.keeps hfirst.store.rooted)

theorem discard (hx : Touches F r x) : Touches F r (discard x) :=
  bind hx fun _ _ _ _ => pure ()

theorem ite {c : Prop} [Decidable c] {x' : Traced α} (hx : Touches F r x) (hx' : Touches F r x') :
    Touches F r (if c then x else x') := by
  split
  · exact hx
  · exact hx'

theorem get {f : Store → Traced β} (hf : Touches F r (f r.store)) :
    Touches F r (Traced.lift MonadState.get >>= f) :=
  hf

theorem note (env : Env) (event : Event) : Touches F r (Traced.note env event) :=
  fun hr => ⟨⟨.refl _, hr⟩, rfl, [_], rfl, List.forall_mem_singleton.mpr ⟨.refl _, hr⟩⟩

theorem watch (env : Env) (before : Event) (after : α → Event) (hx : ∀ r, Touches F r x) :
    Touches F r (Traced.watch env before after x) :=
  bind (note env before) fun _ r' _ _ => bind (hx r') fun a _ _ _ => bind (note env (after a)) fun _ _ _ _ => pure a

/-! ## §4 Single steps -/

/-- A step that records nothing. -/
theorem lift {x : Eval α} (h : r.store.Rooted → r.store.Stays F (state (x r.store)))
    (hsize : (state (x r.store)).scopes.size = r.store.scopes.size) : Touches F r (Traced.lift x) := by
  intro hr
  rw [Traced.lift_eq, state_relabel]
  exact .of_store (h hr) hsize rfl

/-- A step that changes no scope. -/
theorem still {x : Eval α} (h : Eval.Still x) : Touches F r (Traced.lift x) :=
  lift (fun hr => ⟨.of_scopes (h _), hr.of_scopes (h _)⟩) (congrArg Array.size (h _))

theorem fail (e : RunError) : Touches F r (Traced.lift (Eval.fail e : Eval α)) :=
  still (.fail e)

theorem ofExcept (x : Except RunError α) : Touches F r (Traced.lift (Eval.ofExcept x)) :=
  still (.ofExcept x)

theorem valueOf (ref : VariableRef) : Touches F r (Traced.lift (Eval.valueOf ref)) :=
  still (.valueOf ref)

theorem resolve (env : Env) (name : String) (offset : Nat) :
    Touches F r (Traced.lift (Eval.resolve env name offset)) :=
  still (.resolve env name offset)

theorem receiver (env : Env) (name : String) (nameOffset offset : Nat) :
    Touches F r (Traced.lift (Eval.receiver env name nameOffset offset)) :=
  still (.receiver env name nameOffset offset)

/-- The variable that is going to be assigned is mutable. -/
theorem found_of_receiver {env : Env} {name : String} {nameOffset offset : Nat} {ref : VariableRef} {r' : Recorder}
    (h : Traced.lift (Eval.receiver env name nameOffset offset) r = .ok ref r') :
    ∃ cell, r'.store.findVariable? env name = some (ref, cell) ∧ cell.mutable = true := by
  rw [Traced.lift_eq] at h
  cases hrun : Eval.receiver env name nameOffset offset r.store with
  | error e t =>
    rw [hrun] at h
    cases h
  | ok ref' t =>
    rw [hrun] at h
    cases h
    obtain ⟨rfl, hfound⟩ := Eval.receiver_eq_ok.mp hrun
    exact hfound

theorem builtin (which : Builtin) (arguments : List Value) (offset : Nat) :
    Touches F r (Traced.lift (Eval.builtin which arguments offset)) :=
  still (.builtin which arguments offset)

theorem newList (values : List Value) : Touches F r (Traced.lift (Eval.newList values)) :=
  still (.newList values)

theorem setElement (l : ListRef) (i : Nat) (v : Value) :
    Touches F r (Traced.lift (modify fun s => s.setElement l i v)) :=
  still (.setElement l i v)

/-- A variable may be assigned if it is mutable. -/
theorem setValue {ref : VariableRef} (hcell : ∀ c, r.store.cell? ref = some c → c.mutable = true)
    (hwrites : F.writes ref.scope) (v : Value) : Touches F r (Traced.lift (modify fun s => s.setValue ref v)) :=
  lift (fun hr => ⟨.setValue hcell hwrites v, hr.setValue ref v⟩) Array.size_modify

/-- A change of a scope that may be refused. -/
theorem updateScope {scope : Nat} {change : RunFrame → Option RunFrame} {e : RunError}
    (hchange : ∀ f f', change f = some f' → RunFrame.Keeps (F.grows scope) (F.writes scope) f f')
    (hfuns : ∀ f f', change f = some f' → f.Rooted → f'.Rooted) :
    Touches F r (Traced.lift do
      match (← MonadState.get).updateScope? scope change with
      | some s => set s
      | none => Eval.fail e) := by
  refine lift (fun hr => ?_) (Eval.Quiet.updateScope.size r.store)
  rw [get_bind]
  cases ht : r.store.updateScope? scope change with
  | none => exact ⟨.refl _, hr⟩
  | some t => exact ⟨.updateScope (fun f f' _ h => hchange f f' h) ht, Store.AllFrames.updateScope hr hfuns ht⟩

theorem define {env : Env} (hgrows : F.grows (env.headD 0)) (node : Node) (name : String) (cell : Cell) :
    Touches F r (Traced.define env node name cell) := by
  have hdefine : Touches F r (Traced.lift (Eval.define env name cell node.offset)) := by
    refine updateScope (fun f f' h => .defineVariable hgrows h) fun f f' h hold => ?_
    obtain ⟨-, rfl⟩ := Frame.defineVariable?_eq_some.mp h
    exact hold
  refine bind hdefine fun _ r' _ _ => bind ?_ fun _ r'' _ _ => note env _
  -- Which declaration created the variable is only recorded.
  exact fun hr => .of_store ⟨.refl _, hr⟩ rfl rfl

theorem functions (hgrows : F.grows 0) (fs : List Function) : Touches F r (Traced.lift (Eval.functions fs)) := by
  induction fs generalizing r with
  | nil => exact pure ()
  | cons f rest ih =>
    unfold Eval.functions
    rw [Traced.lift_bind]
    refine bind ?_ fun _ _ _ _ => ih
    refine updateScope (fun _ _ h => .defineFunction hgrows h) fun old changed h hold => ?_
    obtain ⟨-, rfl⟩ := Frame.defineFunction?_eq_some.mp h
    refine List.forall_mem_cons.mpr ⟨?_, hold⟩
    -- The closure of the new function is that of the globals.
    rintro g closure ⟨⟩
    rfl

/-- What a body does in its own scope is gone when the scope has been closed. -/
theorem inScope {env : Env} {body : Env → Traced α}
    (hbody : ∀ r', Touches F r' (body (r.store.scopes.size :: env))) (hwithin : F.Within r.store.scopes.size G) :
    Touches G r (Traced.inScope env body) := by
  intro hr
  obtain ⟨hstore, hsize, later, hmoments, hlater⟩ := hbody r.openScope hr.openScope
  have hopen : (r.openScope.store.scopes.size) = r.store.scopes.size + 1 := Array.size_push _
  rw [Traced.inScope_eq, state_relabel]
  refine ⟨⟨(hstore.keeps.of_openScope.mono hwithin).closeScope (by omega), hstore.rooted.closeScope⟩, ?_, later,
    hmoments, fun m hm => ⟨(hlater m hm).keeps.of_openScope.mono hwithin, (hlater m hm).rooted⟩⟩
  change (Array.pop _).size = _
  rw [Array.size_pop]
  omega

/-! ## §5 Sequences -/

section

variable {eval : Expr → Traced Value} (heval : ∀ r e, Touches .ofCall r (eval e))

include heval

theorem all (es : List Expr) : Touches .ofCall r (Traced.all eval es) := by
  induction es generalizing r with
  | nil => exact pure []
  | cons e rest ih => exact bind (heval r e) fun v _ _ _ => bind ih fun vs _ _ _ => pure (v :: vs)

theorem optional (e : Option Expr) : Touches .ofCall r (Traced.optional eval e) := by
  cases e with
  | none => exact pure Value.nil
  | some e => exact heval r e

theorem binary (op : Operator) (left right : Expr) (offset : Nat) :
    Touches .ofCall r (Traced.binary eval op left right offset) := by
  refine bind (heval r left) fun l r' _ _ => ite ?_ ?_
  · refine bind (ofExcept _) fun decided r'' _ _ => ite (pure l) ?_
    exact bind (heval r'' right) fun v _ _ _ => ofExcept _
  · exact bind (heval r' right) fun v _ _ _ => get (ofExcept _)

theorem element (env : Env) (name : String) (index : Expr) (offset : Nat) :
    Touches .ofCall r (Traced.element eval env name index offset) := by
  refine bind (resolve env name offset) fun found r' _ _ => bind (heval r' index) fun position _ _ _ => ?_
  refine bind (valueOf found.1) fun held _ _ _ => bind (ofExcept _) fun list _ _ _ => get ?_
  exact bind (ofExcept _) fun n _ _ _ => bind (ofExcept _) fun i _ _ _ => pure _

theorem storeElement (ref : VariableRef) (index value receiver : Expr) (offset : Nat) :
    Touches .ofCall r (Traced.storeElement eval ref index value receiver offset) := by
  refine bind (heval r index) fun position r' _ _ => bind (heval r' value) fun v _ _ _ => ?_
  refine bind (valueOf ref) fun held _ _ _ => bind (ofExcept _) fun list _ _ _ => get ?_
  refine ite (fail _) (bind (ofExcept _) fun n _ _ _ => bind (ofExcept _) fun i _ _ _ => ?_)
  exact setElement list i v

theorem select (subject : Value) (fallback : Option (List Statement)) (cases : List Case) :
    Touches .ofCall r (Traced.select eval subject fallback cases) := by
  induction cases generalizing r fallback with
  | nil => exact pure fallback
  | cons arm rest ih =>
    obtain ⟨offset, value, body⟩ := arm
    cases value with
    | none => exact ih _
    | some value => exact bind (heval r value) fun v _ _ _ => get (ite (pure (some body)) (ih fallback))

/-- An assignment writes to the variable that its target stands for when it begins, which is still mutable when the
value has been evaluated. -/
theorem assign (env : Env) (target value : Expr) (offset : Nat) :
    Touches (.ofStatement env) r (Traced.assign eval env target value offset) := by
  cases target with
  | «variable» node name =>
    refine bind (receiver env name node.offset offset) fun ref r' hreceiver _ => ?_
    obtain ⟨cell, hfound, hmutable⟩ := found_of_receiver hreceiver
    obtain ⟨hmem, -, hcell⟩ := Store.of_findVariable? hfound
    have hwrites : (Footprint.ofStatement env).writes ref.scope := .inr hmem
    refine bind ((heval r' value).mono Footprint.ofCall_within_ofStatement) fun v r'' _ hkeeps => ?_
    refine setValue (fun c hc => ?_) hwrites v
    obtain ⟨c', hc', hkept⟩ := hkeeps.cell? hcell
    obtain rfl : c' = c := Option.some.inj (hc'.symm.trans hc)
    rw [hkept.mutable_eq, hmutable]
  | element node name index =>
    refine bind (receiver env name node.offset offset) fun ref r' _ _ => ?_
    exact (storeElement heval ref index value _ offset).mono Footprint.ofCall_within_ofStatement
  | literal | group | binary | call | list => exact fail _

end

theorem inOrder {exec : Statement → Traced Flow} (hexec : ∀ r s, Touches F r (exec s)) (body : List Statement) :
    Touches F r (Traced.inOrder exec body) := by
  induction body generalizing r with
  | nil => exact pure Flow.normal
  | cons first rest ih =>
    apply bind (hexec r first)
    intro flow r' _ _
    cases flow with
    | returned v => exact pure (Flow.returned v)
    | normal => exact ih

theorem block {exec : Env → Statement → Traced Flow} (hexec : ∀ r env s, Touches (.ofStatement env) r (exec env s))
    (env : Env) (body : List Statement) : Touches (.ofBlock env) r (Traced.block exec env body) :=
  inScope (fun _ => inOrder (fun r' s => hexec r' _ s) body) Footprint.ofStatement_within_ofBlock

theorem bindParameters {env : Env} (hgrows : F.grows (env.headD 0)) (ps : List Parameter) (values : List Value) :
    Touches F r (Traced.bindParameters env ps values) := by
  induction ps generalizing r values with
  | nil => exact pure ()
  | cons p rest ih =>
    cases values with
    | nil => exact pure ()
    | cons v values => exact bind (define hgrows p.node p.name ⟨true, v⟩) fun _ _ _ _ => ih values

/-! ## §6 Everything together -/

/-- The footprints of all evaluators with that fuel. -/
structure Everywhere (fuel : Nat) : Prop where
  expression : ∀ r env e, Touches .ofCall r (Traced.expression fuel env e)
  call : ∀ r env name arguments offset, Touches .ofCall r (Traced.call fuel env name arguments offset)
  statement : ∀ r env s, Touches (.ofStatement env) r (Traced.statement fuel env s)
  loop : ∀ r env condition body, Touches (.ofBlock env) r (Traced.loop fuel env condition body)

namespace Everywhere

variable {n : Nat}

theorem expression_succ (h : Everywhere n) (r : Recorder) (env : Env) (e : Expr) :
    Touches .ofCall r (Traced.expression (n + 1) env e) := by
  apply watch
  intro r
  have heval := fun r e => h.expression r env e
  cases e with
  | literal node value => exact pure (Value.ofLiteral value)
  | group node inner => exact h.expression r env inner
  | binary node op left right => exact binary heval op left right node.offset
  | «variable» node name => exact bind (resolve env name node.offset) fun found _ _ _ => pure _
  | element node name index => exact element heval env name index node.offset
  | call node name arguments =>
    refine bind (all heval arguments) fun values _ _ _ => bind (note env _) fun _ r' _ _ => ?_
    exact h.call r' env name values node.offset
  | list node elements => exact bind (all heval elements) fun values _ _ _ => newList values

/-- The body of a function works in a scope of its own inside the globals. -/
theorem call_succ (h : Everywhere n) (r : Recorder) (env : Env) (name : String) (arguments : List Value)
    (offset : Nat) : Touches .ofCall r (Traced.call (n + 1) env name arguments offset) := by
  apply of_rooted
  intro hr
  refine get ?_
  split
  · exact builtin _ arguments offset
  next f closure hfind =>
    obtain rfl := hr.found hfind
    refine inScope (fun r' => ?_) Footprint.ofStatement_within_ofCall
    refine bind (bindParameters rfl f.parameters arguments) fun _ r'' _ _ => ?_
    apply bind (inOrder (fun r s => h.statement r _ s) f.body)
    intro flow _ _ _
    cases flow <;> exact pure _
  · exact fail _
  · exact fail _

theorem statement_succ (h : Everywhere n) (r : Recorder) (env : Env) (s : Statement) :
    Touches (.ofStatement env) r (Traced.statement (n + 1) env s) := by
  apply watch
  intro r
  -- What an expression or a block touches, the statement around it may touch as well.
  have heval := fun r e => h.expression r env e
  have hblock : ∀ r body, Touches (.ofStatement env) r (Traced.block (Traced.statement n) env body) :=
    fun r body => (block h.statement env body).mono Footprint.ofBlock_within_ofStatement
  have hexpression : ∀ r e, Touches (.ofStatement env) r (Traced.expression n env e) :=
    fun r e => (heval r e).mono Footprint.ofCall_within_ofStatement
  cases s with
  | expression offset e => exact bind (discard (hexpression r e)) fun _ _ _ _ => pure Flow.normal
  | declaration node name type value =>
    refine bind ((optional heval value).mono Footprint.ofCall_within_ofStatement) fun v _ _ _ => ?_
    exact bind (define rfl node name ⟨true, v⟩) fun _ _ _ _ => pure Flow.normal
  | assignment offset target value =>
    exact bind (assign heval env target value offset) fun _ _ _ _ => pure Flow.normal
  | conditional offset condition onTrue onFalse =>
    refine bind (hexpression r condition) fun test _ _ _ => bind (ofExcept _) fun holds r' _ _ => ?_
    exact ite (pure Flow.normal) (hblock r' _)
  | switch offset condition cases =>
    refine bind (hexpression r condition) fun subject _ _ _ => ?_
    apply bind ((select heval subject none cases).mono Footprint.ofCall_within_ofStatement)
    intro body r' _ _
    cases body with
    | none => exact pure Flow.normal
    | some body => exact hblock r' body
  | loop offset condition body => exact (h.loop r env condition body).mono Footprint.ofBlock_within_ofStatement
  | returning offset value => exact bind (hexpression r value) fun v _ _ _ => pure (Flow.returned v)

theorem loop_succ (h : Everywhere n) (r : Recorder) (env : Env) (condition : Expr) (body : List Statement) :
    Touches (.ofBlock env) r (Traced.loop (n + 1) env condition body) := by
  refine bind ((h.expression r env condition).mono Footprint.ofCall_within_ofBlock) fun test _ _ _ => ?_
  refine bind (ofExcept _) fun holds r' _ _ => ite ?_ (pure Flow.normal)
  apply bind (block h.statement env body)
  intro flow r'' _ _
  cases flow with
  | returned v => exact pure (Flow.returned v)
  | normal => exact h.loop r'' env condition body

end Everywhere

/-- With any amount of fuel, all evaluators stay within their footprints. -/
theorem everything (n : Nat) : Everywhere n := by
  induction n with
  | zero => exact ⟨fun _ _ _ => stop _, fun _ _ _ _ _ => stop _, fun _ _ _ => stop _, fun _ _ _ _ => stop _⟩
  | succ n ih => exact ⟨ih.expression_succ, ih.call_succ, ih.statement_succ, ih.loop_succ⟩

/-! ## §7 Programs -/

theorem globals (fuel : Nat) (gs : List Global) :
    Touches (.ofStatement .globals) r (Traced.globals fuel gs) := by
  induction gs generalizing r with
  | nil => exact pure ()
  | cons g rest ih =>
    have heval := fun r e => (everything fuel).expression r .globals e
    refine bind ((optional heval g.value).mono Footprint.ofCall_within_ofStatement) fun v _ _ _ => ?_
    exact bind (define rfl g.node g.name ⟨g.mutable, v⟩) fun _ _ _ _ => ih

/-- What a program does once globals have been initialized. -/
theorem main (fuel : Nat) (p : Program) (gs : List Global) : Touches (.ofStatement .globals) r (do
    Traced.globals fuel gs
    Traced.lift (Eval.functions p.functions)
    Traced.call fuel .globals "main" [] (Eval.mainOffset p)) :=
  bind (globals fuel gs) fun _ _ _ _ => bind (functions rfl p.functions) fun _ r' _ _ =>
    ((everything fuel).call r' .globals "main" [] _).mono Footprint.ofCall_within_ofStatement

theorem program (fuel : Nat) (p : Program) : Touches (.ofStatement .globals) r (Traced.program fuel p) :=
  main fuel p p.globals

end Touches

theorem Traced.final_eq_state {α : Type} (outcome : EStateM.Result Stop Recorder α) :
    Traced.final outcome = state outcome := by
  cases outcome <;> rfl

/-- From its beginning to its end, a run of a program stays within the footprint of the globals. -/
theorem Program.stays_record (p : Program) (fuel : Nat) (limit : Option Nat) :
    (Recorder.initial limit).Stays (.ofStatement .globals) (p.record fuel limit) := by
  unfold Program.record
  rw [Traced.final_eq_state]
  exact Touches.program fuel p (Store.Rooted.initial limit)

/-- At every moment of a run, functions are defined among the globals. -/
theorem Program.rooted_of_moment {p : Program} {fuel : Nat} {limit : Option Nat} {m : Moment}
    (hm : m ∈ (p.record fuel limit).moments) : m.store.Rooted := by
  obtain ⟨later, hmoments, hlater⟩ := (p.stays_record fuel limit).moments
  rw [hmoments] at hm
  exact (hlater m ((List.mem_append.mp hm).resolve_right List.not_mem_nil)).rooted

end BlockLang
