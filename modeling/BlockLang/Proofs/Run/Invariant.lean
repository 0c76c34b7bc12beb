import BlockLang.Proofs.Aligned
import BlockLang.Proofs.Run.Conformance
import BlockLang.Proofs.Stateful

/-!
# The invariant of checked runs

What is kept at every step of a recorded run of a checked program.  A world says which element type each list was
created with and which declarations created the variables of each open scope; a state of the run is sound in a world
if lists, variables, functions and all moments so far agree with it.

An evaluation is safe in a world if it leads from sound states to sound states in a world with the same lists and
perhaps more, or stops in a permitted way.  Safety goes through sequences, and each single step of a run has its own
lemma; the evaluators are then shown to be safe by following how they are built, without looking at states again.

## Main definitions

- `World`, `Sound`: the invariant.
- `Safe`: safety of an evaluation.
-/

namespace BlockLang

open Stateful

/-! ## §1 Sound states -/

/-- What is known about a state of a run: the element type of each list, the declarations of the variables of each open
scope, and what happened last. -/
structure World where
  lists : List Ty
  origins : Origins
  last : Option Event

/-- In a world, a value may be held by a variable of a static type: a list was created with that element type. -/
def World.Fits (w : World) (v : Value) (τ : Ty) (list : Bool) : Prop :=
  if list then ∃ ref, v = .list ref ∧ w.lists[ref]? = some τ else v.Conforms τ

/-- A later world has the same lists and perhaps more. -/
def World.Grows (w w' : World) : Prop :=
  w.lists <+: w'.lists

namespace World

variable {w w' w'' : World} {v : Value} {τ : Ty} {list : Bool}

theorem Grows.refl (w : World) : w.Grows w := List.prefix_refl _

theorem Grows.trans (h : w.Grows w') (h' : w'.Grows w'') : w.Grows w'' := List.IsPrefix.trans h h'

theorem Grows.lists {ref : ListRef} (h : w.Grows w') (hτ : w.lists[ref]? = some τ) : w'.lists[ref]? = some τ := by
  obtain ⟨more, hmore⟩ := h
  have hlt := (List.getElem?_eq_some_iff.mp hτ).1
  rw [← hmore, List.getElem?_append_left hlt, hτ]

theorem Fits.grow (h : w.Fits v τ list) (hgrows : w.Grows w') : w'.Fits v τ list := by
  unfold Fits at h ⊢
  cases list with
  | false => exact h
  | true =>
    obtain ⟨ref, hv, hτ⟩ := h
    exact ⟨ref, hv, hgrows.lists hτ⟩

end World

section

variable (t : SideTable) (p : Program) (funs : List ((String × Nat) × Callable))

/-- The cell of a variable agrees with the entry of the declaration that created it.  Only globals are immutable. -/
def CellOf (w : World) (cell : Cell) (d : Nat) : Prop :=
  ∃ v, t.findVariable? d = some v ∧ cell.mutable = v.mutable ∧ w.Fits cell.value v.type v.list ∧
    (v.mutable = false → ∃ g ∈ p.globals, g.node.id = d ∧ g.mutable = false)

/-- The frame of an open scope has the variables that were declared in it; functions are in scope 0 alone. -/
structure FrameOf (w : World) (scope : Nat) (frame : RunFrame) (names : Names) : Prop where
  vars : Aligned (CellOf t p w) frame.vars names
  distinct : (names.map Prod.fst).Nodup
  funs : frame.funs = if scope = 0 then funs else []

/-- A state of a run agrees with a world. -/
structure Sound (w : World) (r : Recorder) : Prop where
  origins : r.origins = w.origins
  size : r.store.scopes.size = w.origins.size
  frames {scope : Nat} {frame : RunFrame} {names : Names} : r.store.scopes[scope]? = some frame →
    w.origins[scope]? = some names → FrameOf t p funs w scope frame names
  length : r.store.heap.lists.size = w.lists.length
  elements {ref : ListRef} {τ : Ty} : w.lists[ref]? = some τ → ∀ v ∈ r.store.heap.elements ref, v.Conforms τ
  last : r.moments.head?.map Moment.event = w.last
  typed : ∀ m ∈ r.moments, m.Typed t p
  resolved : ∀ m ∈ r.moments, m.Resolved t p

/-- From sound states, an evaluation leads to a sound state and a value as described, or stops as it may. -/
def Safe {α : Type} (w : World) (x : Traced α) (Q : α → World → Prop) : Prop :=
  ∀ r, Sound t p funs w r →
    match x r with
    | .ok a r' => ∃ w', Sound t p funs w' r' ∧ w.Grows w' ∧ Q a w'
    | .error stop r' => (∃ w', Sound t p funs w' r') ∧ Permitted t p r'.moments stop

end

variable {t : SideTable} {p : Program} {funs : List ((String × Nat) × Callable)}

theorem CellOf.grow {w w' : World} {cell : Cell} {d : Nat} (h : CellOf t p w cell d) (hgrows : w.Grows w') :
    CellOf t p w' cell d := by
  obtain ⟨v, hv, hmutable, hfits, hglobal⟩ := h
  exact ⟨v, hv, hmutable, hfits.grow hgrows, hglobal⟩

theorem FrameOf.grow {w w' : World} {scope : Nat} {frame : RunFrame} {names : Names}
    (h : FrameOf t p funs w scope frame names) (hgrows : w.Grows w') : FrameOf t p funs w' scope frame names :=
  ⟨h.vars.mono fun _ _ hcell => hcell.grow hgrows, h.distinct, h.funs⟩

namespace Sound

variable {w : World} {r : Recorder}

/-- An open scope has a frame and names. -/
theorem frame_of_names (h : Sound t p funs w r) {scope : Nat} {names : Names}
    (hnames : w.origins[scope]? = some names) :
    ∃ frame, r.store.scopes[scope]? = some frame ∧ FrameOf t p funs w scope frame names := by
  have hlt : scope < r.store.scopes.size := by
    rw [h.size]
    exact (Array.getElem?_eq_some_iff.mp hnames).1
  have hframe := Array.getElem?_eq_getElem hlt
  exact ⟨_, hframe, h.frames hframe hnames⟩

/-- What a variable holds in a world, it holds in every sound state. -/
theorem holds (h : Sound t p funs w r) {v : Value} {τ : Ty} {list : Bool} (hfits : w.Fits v τ list) :
    r.store.heap.Holds v τ list := by
  cases list with
  | false => exact hfits
  | true =>
    obtain ⟨ref, hv, hτ⟩ := hfits
    exact ⟨ref, hv, h.elements hτ⟩

/-- A variable that was declared has a cell. -/
theorem cell_of_origin (h : Sound t p funs w r) {ref : VariableRef} {d : Nat} (hd : w.origins.origin? ref = some d) :
    ∃ cell, r.store.cell? ref = some cell ∧ CellOf t p w cell d := by
  obtain ⟨names, hnames, hlookup⟩ := Option.bind_eq_some_iff.mp hd
  obtain ⟨frame, hframe, hof⟩ := h.frame_of_names hnames
  -- The frame and the names have the same keys.
  have hrel := hof.vars.lookup ref.name
  rw [hlookup] at hrel
  unfold Store.cell? Frame.findVariable?
  rw [hframe]
  simp only
  generalize frame.vars.lookup ref.name = found at hrel
  cases hrel with
  | some hcell => exact ⟨_, rfl, hcell⟩

/-- A cell belongs to a variable that was declared. -/
theorem origin_of_cell (h : Sound t p funs w r) {ref : VariableRef} {cell : Cell}
    (hcell : r.store.cell? ref = some cell) :
    ∃ d, w.origins.origin? ref = some d ∧ CellOf t p w cell d := by
  unfold Store.cell? Frame.findVariable? at hcell
  cases hframe : r.store.scopes[ref.scope]? with
  | none => simp [hframe] at hcell
  | some frame =>
    simp only [hframe] at hcell
    have hlt : ref.scope < w.origins.size := by
      rw [← h.size]
      exact (Array.getElem?_eq_some_iff.mp hframe).1
    have hnames := Array.getElem?_eq_getElem hlt
    -- The same comparison, read the other way.
    have hrel := (h.frames hframe hnames).vars.lookup ref.name
    rw [hcell] at hrel
    unfold Origins.origin?
    rw [hnames, Option.bind_some]
    generalize w.origins[ref.scope].lookup ref.name = found at hrel
    cases hrel with
    | some hof => exact ⟨_, rfl, hof⟩

/-- In a sound state, all variables conform. -/
theorem cellsConform (h : Sound t p funs w r) : CellsConform t r.store r.origins := by
  intro ref cell hcell
  obtain ⟨d, hd, v, hv, -, hfits, -⟩ := h.origin_of_cell hcell
  exact ⟨d, v, by rw [h.origins, hd], hv, h.holds hfits⟩

end Sound

end BlockLang
