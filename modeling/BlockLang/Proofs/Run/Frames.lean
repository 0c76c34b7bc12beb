import BlockLang.Run.Store
import Mathlib.Tactic.SplitIfs

/-!
# Frames of stores

What the operations on a store do to the frames of its scopes.  A store is looked at through its frames: a scope that is
not open counts as one without names.

## Main definitions

- `Store.frame`: the frame of a scope.
- `Store.AllFrames`: what the frames of all open scopes have in common.

## Main statements

- `Store.ext_frames`: the frames, the lists and the output are all there is to a store.
- `Store.AllFrames.updateScope`: frames keep what they have in common if a change of one of them keeps it.
-/

namespace BlockLang

/-! ## §1 Frames whose functions are changed -/

namespace Frame

variable {V F : Type} (change : F → F) (f : Frame V F)

theorem defineVariable?_mapFunctions (name : String) (v : V) :
    (f.mapFunctions change).defineVariable? name v =
      (f.defineVariable? name v).map fun g => g.mapFunctions change := by
  have hfind : (f.mapFunctions change).findVariable? name = f.findVariable? name := rfl
  unfold defineVariable?
  rw [hfind]
  cases f.findVariable? name <;> rfl

theorem findFunction?_mapFunctions (name : String) (arity : Nat) :
    (f.mapFunctions change).findFunction? name arity = (f.findFunction? name arity).map change := by
  unfold findFunction? mapFunctions
  induction f.funs with
  | nil => rfl
  | cons entry rest ih =>
    obtain ⟨key, g⟩ := entry
    simp only [List.map_cons, List.lookup_cons]
    cases (name, arity) == key with
    | true => rfl
    | false => exact ih

theorem defineFunction?_mapFunctions (name : String) (arity : Nat) (g : F) :
    (f.mapFunctions change).defineFunction? name arity (change g) =
      (f.defineFunction? name arity g).map fun f' => f'.mapFunctions change := by
  unfold defineFunction?
  rw [findFunction?_mapFunctions]
  cases f.findFunction? name arity <;> rfl

end Frame

/-! ## §2 Frames of a store -/

namespace Store

/-- The frame of a scope; a scope that is not open has no names. -/
def frame (s : Store) (scope : Nat) : RunFrame :=
  s.scopes[scope]?.getD .empty

variable {s : Store} {i j : Nat}

theorem cell?_eq (s : Store) (ref : VariableRef) : s.cell? ref = (s.frame ref.scope).findVariable? ref.name := by
  unfold cell? frame
  cases s.scopes[ref.scope]? <;> rfl

theorem frame_of_size_le (h : s.scopes.size ≤ i) : s.frame i = .empty := by
  simp [frame, Array.getElem?_eq_none h]

theorem findFunction?_eq (s : Store) (env : Env) (name : String) (arity : Nat) :
    s.findFunction? env name arity = env.findSome? fun i => (s.frame i).findFunction? name arity := by
  unfold findFunction? frame
  congr 1
  funext i
  cases s.scopes[i]? <;> rfl

/-- The store with another frame for a scope. -/
def withFrame (s : Store) (i : Nat) (f : RunFrame) : Store :=
  { s with scopes := s.scopes.setIfInBounds i f }

theorem frame_withFrame (h : i < s.scopes.size) (f : RunFrame) (j : Nat) :
    (s.withFrame i f).frame j = if j = i then f else s.frame j := by
  unfold frame withFrame
  rw [Array.getElem?_setIfInBounds]
  by_cases hij : i = j
  · subst hij
    simp [h]
  · simp [hij, Ne.symm hij]

/-- A scope is changed through its frame. -/
theorem updateScope?_eq (s : Store) (scope : Nat) (change : RunFrame → Option RunFrame) :
    s.updateScope? scope change =
      if scope < s.scopes.size then (change (s.frame scope)).map (s.withFrame scope) else none := by
  unfold updateScope? frame
  split_ifs with h
  · rw [Array.getElem?_eq_getElem h]
    rfl
  · rw [Array.getElem?_eq_none (Nat.le_of_not_lt h)]

/-- A variable is defined in the frame of its scope. -/
theorem defineVariable?_eq (s : Store) (ref : VariableRef) (cell : Cell) :
    s.defineVariable? ref cell =
      if ref.scope < s.scopes.size then
        ((s.frame ref.scope).defineVariable? ref.name cell).map (s.withFrame ref.scope)
      else none :=
  s.updateScope?_eq ref.scope _

theorem frame_setValue (s : Store) (ref : VariableRef) (v : Value) (j : Nat) :
    (s.setValue ref v).frame j =
      if j = ref.scope then (s.frame j).updateVariable ref.name fun c => { c with value := v } else s.frame j := by
  unfold frame setValue
  rw [Array.getElem?_modify]
  by_cases hj : ref.scope = j
  · subst hj
    cases s.scopes[ref.scope]? with
    | none => simp [Frame.updateVariable, Frame.empty]
    | some f => simp
  · simp [hj, Ne.symm hj]

@[simp]
theorem frame_openScope (s : Store) (j : Nat) : s.openScope.frame j = s.frame j := by
  unfold frame openScope
  rw [Array.getElem?_push]
  by_cases hj : j = s.scopes.size
  · simp [hj]
  · simp [hj]

theorem frame_closeScope (s : Store) (j : Nat) :
    s.closeScope.frame j = if j < s.scopes.size - 1 then s.frame j else .empty := by
  unfold frame closeScope
  rw [Array.getElem?_pop]
  split <;> rfl

/-- Stores are the same if their frames, lists and outputs are. -/
theorem ext_frames {s t : Store} (hsize : s.scopes.size = t.scopes.size) (hframes : ∀ i, s.frame i = t.frame i)
    (hheap : s.heap = t.heap) (hsink : s.sink = t.sink) : s = t := by
  obtain ⟨scopes, heap, sink⟩ := s
  obtain ⟨scopes', heap', sink'⟩ := t
  obtain rfl : heap = heap' := hheap
  obtain rfl : sink = sink' := hsink
  have hscopes : scopes = scopes' := by
    refine Array.ext hsize fun i hi hi' => ?_
    have hframe := hframes i
    simpa [frame, hi, hi'] using hframe
  rw [hscopes]

/-! ## §3 What all frames have in common -/

variable {t : Store} {scope : Nat} {change : RunFrame → Option RunFrame}

/-- A scope is changed by changing its frame. -/
theorem updateScope?_eq_some : s.updateScope? scope change = some t ↔
    ∃ frame changed, s.scopes[scope]? = some frame ∧ change frame = some changed ∧
      t = { s with scopes := s.scopes.setIfInBounds scope changed } := by
  unfold updateScope?
  cases hframe : s.scopes[scope]? with
  | none => simp
  | some frame =>
    constructor
    · intro h
      obtain ⟨changed, hchanged, rfl⟩ := Option.map_eq_some_iff.mp h
      exact ⟨frame, changed, rfl, hchanged, rfl⟩
    · rintro ⟨_, changed, ⟨⟩, hchanged, rfl⟩
      exact Option.map_eq_some_iff.mpr ⟨changed, hchanged, rfl⟩

theorem heap_of_updateScope? (h : s.updateScope? scope change = some t) : t.heap = s.heap := by
  obtain ⟨_, _, _, _, rfl⟩ := updateScope?_eq_some.mp h
  rfl

/-- The frame of every open scope is such. -/
def AllFrames (s : Store) (P : RunFrame → Prop) : Prop :=
  ∀ (scope : Nat) (frame : RunFrame), s.scopes[scope]? = some frame → P frame

namespace AllFrames

variable {P : RunFrame → Prop}

/-- Before a run there is the frame of the builtins alone. -/
theorem initial (h : P builtinFrame) (limit : Option Nat) : (Store.initial limit).AllFrames P := by
  intro scope frame hframe
  cases scope with
  | zero =>
    cases hframe
    exact h
  | succ scope => cases hframe

theorem openScope (h : s.AllFrames P) (hempty : P .empty) : s.openScope.AllFrames P := by
  intro scope frame hframe
  simp only [Store.openScope, Array.getElem?_push] at hframe
  split at hframe
  · cases hframe
    exact hempty
  · exact h scope frame hframe

theorem closeScope (h : s.AllFrames P) : s.closeScope.AllFrames P := by
  intro scope frame hframe
  simp only [Store.closeScope, Array.getElem?_pop] at hframe
  split at hframe
  · exact h scope frame hframe
  · cases hframe

theorem setValue (h : s.AllFrames P) {ref : VariableRef} {v : Value}
    (hchange : ∀ f, P f → P (f.updateVariable ref.name fun c => { c with value := v })) :
    (s.setValue ref v).AllFrames P := by
  intro scope frame hframe
  simp only [Store.setValue, Array.getElem?_modify] at hframe
  split at hframe
  · obtain ⟨old, hold, rfl⟩ := Option.map_eq_some_iff.mp hframe
    exact hchange old (h _ _ hold)
  · exact h scope frame hframe

theorem updateScope (h : s.AllFrames P) (hchange : ∀ f f', change f = some f' → P f → P f')
    (ht : s.updateScope? scope change = some t) : t.AllFrames P := by
  obtain ⟨old, changed, hold, hchanged, rfl⟩ := updateScope?_eq_some.mp ht
  intro other frame hframe
  simp only [Array.getElem?_setIfInBounds] at hframe
  split at hframe
  · split at hframe
    · cases hframe
      exact hchange old changed hchanged (h _ _ hold)
    · cases hframe
  · exact h other frame hframe

/-- All frames may be changed at once. -/
theorem map (h : s.AllFrames P) {change : RunFrame → RunFrame} (hchange : ∀ f, P f → P (change f)) :
    AllFrames { s with scopes := s.scopes.map change } P := by
  intro scope frame hframe
  simp only [Array.getElem?_map] at hframe
  obtain ⟨old, hold, rfl⟩ := Option.map_eq_some_iff.mp hframe
  exact hchange old (h scope old hold)

/-- A variable that is looked up is one of those in the frames. -/
theorem of_cell? {Q : String × Cell → Prop} (h : s.AllFrames fun f => ∀ x ∈ f.vars, Q x) {ref : VariableRef}
    {cell : Cell} (hcell : s.cell? ref = some cell) : Q (ref.name, cell) := by
  unfold Store.cell? at hcell
  cases hframe : s.scopes[ref.scope]? with
  | none => simp [hframe] at hcell
  | some frame =>
    simp only [hframe] at hcell
    obtain ⟨before, after, hvars, -⟩ := List.lookup_eq_some_iff.mp hcell
    exact h _ _ hframe (ref.name, cell) (by simp [hvars])

/-- A function that is found is one of those in the frames. -/
theorem of_findFunction? {Q : (String × Nat) × Callable → Prop} (h : s.AllFrames fun f => ∀ x ∈ f.funs, Q x)
    {env : Env} {name : String} {arity : Nat} {c : Callable} (hfind : s.findFunction? env name arity = some c) :
    Q ((name, arity), c) := by
  obtain ⟨scope, -, hscope⟩ := List.exists_of_findSome?_eq_some hfind
  cases hframe : s.scopes[scope]? with
  | none => simp [hframe] at hscope
  | some frame =>
    simp only [hframe] at hscope
    obtain ⟨before, after, hfuns, -⟩ := List.lookup_eq_some_iff.mp hscope
    exact h _ _ hframe ((name, arity), c) (by simp [hfuns])

end AllFrames

end Store

end BlockLang
