import BlockLang.Proofs.Run.Soundness
import Mathlib.Data.List.Nodup

/-!
# Safety of whole programs

A run first initialises the globals, while the builtins alone can be called, then defines the functions, and then
calls the entry point.  From the initial state of a recorded run, each of the three leads to a sound state for the
next.

## Main statement

- `program_safe`: a recorded run of a typed program ends in a sound state.
-/

namespace BlockLang

open Stateful

variable {t : SideTable} {p : Program} {funs : List ((String × Nat) × Callable)} {w : World} {fuel : Nat}

/-! ## §1 Globals -/

/-- The functions that exist before any program. -/
def builtinFunctions : List ((String × Nat) × Callable) :=
  [(("print", 1), .builtin .print)]

theorem serves_builtins (names : Names) : Serves t p builtinFunctions [] names := by
  -- There is no function of a program to call yet.
  rintro name arity f (⟨rfl, rfl, rfl⟩ | ⟨g, hg, -⟩)
  · exact Or.inl ⟨rfl, rfl, rfl, rfl⟩
  · cases hg

/-- The initial value of a global is what the global may hold. -/
theorem safe_globalValue {names : Names} {g : Global} {τ : Ty} (hsees : Sees names w.origins .globals [names])
    (hg : g ∈ p.globals) (h : GlobalValue t p.bindings [] [names] g.value τ) :
    Safe t p builtinFunctions w (Traced.optional (Traced.expression fuel .globals) g.value)
      (w.Yields τ g.isList) := by
  obtain ⟨heval, -⟩ := everything (serves_builtins (t := t) (p := p) names) fuel
  unfold Global.isList
  -- A global without a value is `Nil`, which fits any type.
  cases hvalue : g.value with
  | none => exact .pure ⟨rfl, .nil τ⟩
  | some e =>
    rw [hvalue] at h
    cases h with
    | value hlist htype hfits =>
      rw [Option.any_some, hlist]
      exact (heval hsees htype).mono fun v w' _ hv => ⟨hv.1, hv.2.of_fits hfits⟩
    | @list node items found _ hitems hfound hτ =>
      have hinit : p.IsListInitializer (.list node items) := ⟨rfl, g, hg, hvalue⟩
      cases fuel with
      | zero => exact .stop fun _ => trivial
      | succ n =>
        obtain ⟨heval, -⟩ := everything (serves_builtins (t := t) (p := p) names) n
        exact safe_list_watched heval hsees hitems hfound hτ (Or.inl hinit)

/-- Globals are declared in the outermost scope, the last one latest. -/
theorem safe_globals {names : Names} {gs : List Global} (horigins : w.origins = #[names])
    (hgs : GlobalsTyped t p.bindings [] names gs) (hmem : ∀ g ∈ gs, g ∈ p.globals) :
    Safe t p builtinFunctions w (Traced.globals fuel gs) fun _ w' => w'.origins = #[globalNames gs ++ names] := by
  -- The invariant: the outermost scope has the names of the globals so far, and no other scope is open.
  induction gs generalizing w names with
  | nil => exact .pure horigins
  | cons g rest ih =>
    cases hgs with
    | @cons _ _ _ v hvalue hnew hv hname hmutable hlist hrest =>
      have hg := hmem g List.mem_cons_self
      have hsees : Sees names w.origins .globals [names] := .ofGlobals (by rw [horigins]; rfl)
      apply Safe.bind (safe_globalValue hsees hg hvalue)
      intro value w₁ _ h₁
      have horigins₁ : w₁.origins = (#[] : Origins).push names := h₁.1.trans horigins
      have hcell : CellOf t p w₁ ⟨g.mutable, value⟩ g.node.id := by
        refine ⟨v, hv, hmutable.symm, ?_, fun hconstant => ⟨g, hg, rfl, hmutable ▸ hconstant⟩⟩
        rw [hlist]
        exact h₁.2
      refine Safe.bind (P := fun _ w' => w'.origins = #[(g.name, g.node.id) :: names]) ?_ fun _ w₂ _ h₂ => ?_
      · exact .define rfl horigins₁ hnew hcell rfl
      · apply (ih h₂ hrest fun g' hg' => hmem g' (List.mem_cons_of_mem _ hg')).mono
        intro _ w₃ _ h₃
        rw [h₃, globalNames, globalNames, List.map_cons, List.reverse_cons, List.append_assoc]
        rfl

/-! ## §2 Functions -/

/-- A function as it is found at runtime. -/
def Function.entry (f : Function) : (String × Nat) × Callable :=
  ((f.name, f.arity), .defined f (some .globals))

/-- A new function may be defined among the globals. -/
theorem Sound.defineFunction {r : Recorder} {f : Function} (h : Sound t p funs w r) (hsize : w.origins.size ≠ 0)
    (hnew : funs.lookup (f.name, f.arity) = none) :
    ∃ s, Eval.defineFunction f r.store = .ok () s ∧ Sound t p (f.entry :: funs) w { r with store := s } := by
  have hnames := Array.getElem?_eq_getElem (Nat.pos_of_ne_zero hsize)
  obtain ⟨frame, hframe, hof⟩ := h.frame_of_names hnames
  have hfuns : frame.funs = funs := hof.funs
  have hdefine : frame.defineFunction? f.name f.arity (.defined f (some .globals)) =
      some { frame with funs := f.entry :: frame.funs } := by
    refine Frame.defineFunction?_eq_some.mpr ⟨?_, rfl⟩
    rw [Frame.findFunction?, hfuns, hnew]
  have hstore : r.store.defineFunction? 0 f.name f.arity (.defined f (some .globals)) = some
      { r.store with scopes := r.store.scopes.setIfInBounds 0 { frame with funs := f.entry :: frame.funs } } := by
    simp only [Store.defineFunction?, Store.updateScope?, hframe, hdefine, Option.map_some]
  refine ⟨{ r.store with scopes := r.store.scopes.setIfInBounds 0 { frame with funs := f.entry :: frame.funs } }, ?_,
    h.origins, ?_, ?_, h.length, h.elements, h.last, h.typed, h.resolved⟩
  · unfold Eval.defineFunction
    rw [get_bind, hstore]
    rfl
  · rw [Array.size_setIfInBounds, h.size]
  · intro scope frame' names' hframe' hnames'
    rw [Array.getElem?_setIfInBounds] at hframe'
    -- The outermost frame alone gets the function.
    by_cases hscope : scope = 0
    · subst hscope
      have hlt : 0 < r.store.scopes.size := (Array.getElem?_eq_some_iff.mp hframe).1
      rw [if_pos rfl, if_pos hlt] at hframe'
      cases hframe'
      have hold := h.frames hframe hnames'
      exact ⟨hold.vars, hold.distinct, by rw [hfuns, if_pos rfl]⟩
    · rw [if_neg (Ne.symm hscope)] at hframe'
      have hold := h.frames hframe' hnames'
      exact ⟨hold.vars, hold.distinct, by rw [hold.funs, if_neg hscope, if_neg hscope]⟩

/-- Functions with distinct names and numbers of parameters may be defined in order. -/
theorem Sound.defineFunctions {r : Recorder} (h : Sound t p funs w r) (hsize : w.origins.size ≠ 0) (gs : List Function)
    (hdistinct : (funs.map Prod.fst ++ gs.map fun f => (f.name, f.arity)).Nodup) :
    ∃ s, Eval.functions gs r.store = .ok () s ∧
      Sound t p ((gs.map Function.entry).reverse ++ funs) w { r with store := s } := by
  induction gs generalizing r funs with
  | nil => exact ⟨r.store, rfl, h⟩
  | cons f rest ih =>
    rw [List.map_cons, List.nodup_middle, List.nodup_cons] at hdistinct
    obtain ⟨hnot, hrest⟩ := hdistinct
    -- The key of this function occurs once among all keys, so it is not defined yet.
    have hnew : funs.lookup (f.name, f.arity) = none := by
      rw [List.lookup_eq_none_iff]
      intro entry hentry
      rw [bne_iff_ne]
      intro heq
      exact hnot (List.mem_append_left _ (heq ▸ List.mem_map_of_mem hentry))
    obtain ⟨s, hs, hsound⟩ := h.defineFunction hsize hnew
    obtain ⟨s', hs', hsound'⟩ := ih hsound (List.nodup_cons.mpr ⟨hnot, hrest⟩)
    refine ⟨s', ?_, ?_⟩
    · unfold Eval.functions
      rw [bind_of_ok hs]
      exact hs'
    · rw [List.map_cons, List.reverse_cons, List.append_assoc]
      exact hsound'

/-- All functions of a typed program can be called once they are defined. -/
theorem serves_functions (h : ProgramTyped t p) :
    Serves t p ((p.functions.map Function.entry).reverse ++ builtinFunctions) p.functions (globalNames p.globals) := by
  -- With distinct keys, the order in which functions were defined does not matter.
  have hkeys : (((p.functions.map Function.entry).reverse ++ builtinFunctions).map Prod.fst).Nodup := by
    rw [List.map_append, List.map_reverse, List.map_map]
    have hreversed := List.nodup_reverse.mpr h.distinct
    rw [List.reverse_cons] at hreversed
    exact hreversed
  rintro name arity f (⟨rfl, rfl, rfl⟩ | ⟨g, hg, rfl, rfl, hf⟩)
  · refine Or.inl ⟨lookup_of_mem hkeys ?_, rfl, rfl, rfl⟩
    exact List.mem_append_right _ List.mem_cons_self
  · obtain ⟨info, htyped⟩ := h.functions g hg
    obtain rfl := Option.some.inj (htyped.recorded.symm.trans hf)
    refine Or.inr ⟨g, hg, lookup_of_mem hkeys ?_, rfl, rfl, htyped⟩
    exact List.mem_append_left _ (List.mem_reverse.mpr (List.mem_map_of_mem hg))

/-! ## §3 Programs -/

/-- The state before a recorded run is sound. -/
theorem sound_initial (limit : Option Nat) :
    Sound t p builtinFunctions ⟨[], #[[]], none⟩ (Recorder.initial limit) := by
  refine ⟨rfl, rfl, ?_, rfl, ?_, rfl, ?_, ?_⟩
  -- One scope is open and has no variables yet.
  · intro scope frame names hframe hnames
    cases scope with
    | zero =>
      cases hframe
      cases hnames
      exact ⟨.nil, List.nodup_nil, rfl⟩
    | succ scope => cases hframe
  · intro ref τ hτ
    cases hτ
  · intro m hm
    cases hm
  · intro m hm
    cases hm

theorem isEntry_iff {f : Function} : f.isEntry = true ↔ f.name = "main" ∧ f.parameters = [] := by
  unfold Function.isEntry
  rw [Bool.and_eq_true, decide_eq_true_iff, List.isEmpty_iff]

/-- Once the globals and the functions are defined, the entry point, which takes no arguments, is safe to call. -/
theorem safe_main (fuel : Nat) (h : ProgramTyped t p) {w : World} (horigins : w.origins = #[globalNames p.globals]) :
    Safe t p ((p.functions.map Function.entry).reverse ++ builtinFunctions) w
      (Traced.call fuel .globals "main" [] (Eval.mainOffset p)) (w.Yields .integer false) := by
  obtain ⟨main, hmain, hentry, info, hinfo, hreturns⟩ := h.entry
  obtain ⟨hname, hempty⟩ := isEntry_iff.mp hentry
  have hcallee : Callee t p.functions "main" ([] : List Value).length info :=
    Or.inr ⟨main, hmain, hname, by rw [Function.arity, hempty]; rfl, hinfo⟩
  have hsees : Sees (globalNames p.globals) w.origins .globals [globalNames p.globals] :=
    .ofGlobals (by rw [horigins]; rfl)
  have hparameters : List.Forall₂ Value.Conforms [] info.parameters := by
    obtain ⟨info', htyped⟩ := h.functions main hmain
    obtain rfl := Option.some.inj (htyped.recorded.symm.trans hinfo)
    have htypes := htyped.parameters
    rw [hempty, List.forall₂_nil_left_iff] at htypes
    rw [htypes]
    exact .nil
  obtain ⟨-, hcalls, -⟩ := everything (serves_functions h) fuel
  exact hreturns ▸ hcalls hsees hcallee hparameters

/-- From its initial state, a recorded run of a typed program leads to a sound state; it yields an integer or `Nil`, or
stops as it may. -/
theorem program_safe (h : ProgramTyped t p) (limit : Option Nat) :
    match Traced.program fuel p (.initial limit) with
    | .ok v r => (∃ funs w, Sound t p funs w r) ∧ v.Conforms .integer
    | .error stop r => (∃ funs w, Sound t p funs w r) ∧ Permitted t p r.moments stop := by
  have hsafe : Safe t p builtinFunctions ⟨[], #[[]], none⟩ (Traced.globals fuel p.globals) fun _ w' =>
      w'.origins = #[globalNames p.globals ++ []] := safe_globals rfl h.globals fun _ hg => hg
  have hglobals := hsafe _ (sound_initial limit)
  unfold Traced.program
  -- First the globals.
  cases hrun : Traced.globals fuel p.globals (.initial limit) with
  | error stop r =>
    rw [hrun] at hglobals
    rw [bind_of_error hrun]
    obtain ⟨⟨w, hr⟩, hpermitted⟩ := hglobals
    exact ⟨⟨_, w, hr⟩, hpermitted⟩
  | ok u r =>
    rw [hrun] at hglobals
    obtain ⟨w, hr, -, horigins⟩ := hglobals
    rw [List.append_nil] at horigins
    -- Then the functions, which cannot fail, because their names and arities are distinct.
    have hsize : w.origins.size ≠ 0 := by
      rw [horigins]
      exact Nat.one_ne_zero
    obtain ⟨s, hs, hsound⟩ := hr.defineFunctions hsize p.functions h.distinct
    have hlift : Traced.lift (Eval.functions p.functions) r = .ok () { r with store := s } := by
      unfold Traced.lift
      rw [hs]
    rw [bind_of_ok hrun, bind_of_ok hlift]
    -- Then the entry point.
    have hcall := safe_main fuel h horigins _ hsound
    cases hresult : Traced.call fuel .globals "main" [] (Eval.mainOffset p) { r with store := s } with
    | ok v r' =>
      rw [hresult] at hcall
      obtain ⟨w', hr', -, hv⟩ := hcall
      exact ⟨⟨_, w', hr'⟩, hv.2⟩
    | error stop r' =>
      rw [hresult] at hcall
      obtain ⟨⟨w', hr'⟩, hpermitted⟩ := hcall
      exact ⟨⟨_, w', hr'⟩, hpermitted⟩

end BlockLang
