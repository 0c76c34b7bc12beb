import BlockLang.Proofs.Run.Invariant
import BlockLang.Proofs.Run.Operations
import BlockLang.Proofs.Run.Outcomes

/-!
# Safe steps

Safety goes through sequences, and every single step of a recorded run is safe: looking names up, defining and
assigning variables, creating lists and changing their elements, opening scopes, and recording moments.
-/

namespace BlockLang

open Stateful

variable {t : SideTable} {p : Program} {funs : List ((String × Nat) × Callable)} {w : World} {α β : Type}

/-! ## §1 Sequences -/

namespace Safe

variable {x : Traced α} {f : α → Traced β} {P Q : α → World → Prop} {R : β → World → Prop}

theorem pure {a : α} (h : Q a w) : Safe t p funs w (pure a) Q :=
  fun _ hr => ⟨w, hr, .refl w, h⟩

theorem stop {e : Stop} (h : ∀ moments, Permitted t p moments e) : Safe t p funs w (throw e : Traced α) Q :=
  fun _ hr => ⟨⟨w, hr⟩, h _⟩

theorem bind (hx : Safe t p funs w x P) (hf : ∀ a w', w.Grows w' → P a w' → Safe t p funs w' (f a) R) :
    Safe t p funs w (x >>= f) R := by
  intro r hr
  -- The worlds in between are given up: only the last one and what has grown are known afterwards.
  have hrun := hx r hr
  cases heq : x r with
  | error e r' =>
    rw [heq] at hrun
    rw [bind_of_error heq]
    exact hrun
  | ok a r' =>
    rw [heq] at hrun
    rw [bind_of_ok heq]
    obtain ⟨w', hr', hgrows, hP⟩ := hrun
    have hrest := hf a w' hgrows hP r' hr'
    cases heq' : f a r' with
    | error e r'' =>
      rw [heq'] at hrest
      exact hrest
    | ok b r'' =>
      rw [heq'] at hrest
      obtain ⟨w'', hr'', hgrows', hR⟩ := hrest
      exact ⟨w'', hr'', hgrows.trans hgrows', hR⟩

theorem mono (hx : Safe t p funs w x P) (h : ∀ a w', w.Grows w' → P a w' → Q a w') : Safe t p funs w x Q := by
  intro r hr
  have hrun := hx r hr
  cases heq : x r with
  | error e r' =>
    rw [heq] at hrun
    exact hrun
  | ok a r' =>
    rw [heq] at hrun
    obtain ⟨w', hr', hgrows, hP⟩ := hrun
    exact ⟨w', hr', hgrows, h a w' hgrows hP⟩

theorem discard (hx : Safe t p funs w x P) : Safe t p funs w (discard x) fun _ w' => ∃ a, P a w' := by
  intro r hr
  have hrun := hx r hr
  have hdiscard : (Functor.discard x) r = EStateM.map (fun _ => ()) x r := rfl
  rw [hdiscard, EStateM.map]
  cases heq : x r with
  | error e r' =>
    rw [heq] at hrun
    exact hrun
  | ok a r' =>
    rw [heq] at hrun
    obtain ⟨w', hr', hgrows, hP⟩ := hrun
    exact ⟨w', hr', hgrows, a, hP⟩

/-- A step that records nothing is safe if the store it leads to is sound in a later world. -/
theorem lift {x : Eval α} (h : ∀ r, Sound t p funs w r → match x r.store with
    | .ok a s => ∃ w', Sound t p funs w' { r with store := s } ∧ w.Grows w' ∧ Q a w'
    | .error e s => (∃ w', Sound t p funs w' { r with store := s }) ∧ Permitted t p r.moments e) :
    Safe t p funs w (Traced.lift x) Q := by
  intro r hr
  have hstep := h r hr
  unfold Traced.lift
  cases heq : x r.store with
  | ok a s =>
    rw [heq] at hstep
    exact hstep
  | error e s =>
    rw [heq] at hstep
    exact hstep

/-- Reading the store. -/
theorem get : Safe t p funs w (Traced.lift MonadState.get) fun s w' => w' = w ∧ ∃ r, Sound t p funs w r ∧ r.store = s :=
  lift fun r hr => ⟨w, hr, .refl w, rfl, r, hr, rfl⟩

/-- An operation that yields a result as described or fails harmlessly. -/
theorem ofExcept {x : Except RunError α} {P : α → Prop} (h : Meets P x) :
    Safe t p funs w (Traced.lift (Eval.ofExcept x)) fun a w' => w' = w ∧ P a := by
  apply lift
  intro r hr
  cases x with
  | ok a => exact ⟨w, hr, .refl w, rfl, h⟩
  | error e => exact ⟨⟨w, hr⟩, permitted_of_harmless h⟩

theorem fail {e : RunError} (h : e.Harmless) : Safe t p funs w (Traced.lift (Eval.fail e : Eval α)) Q :=
  lift fun _ hr => ⟨⟨w, hr⟩, permitted_of_harmless h⟩

/-! ## §2 Moments -/

/-- A moment may be recorded if it is as it should be in every sound state. -/
theorem note {env : Env} {event : Event} {Q : Unit → World → Prop}
    (htyped : ∀ r, Sound t p funs w r → Moment.Typed t p ⟨env, r.store, r.origins, event⟩)
    (hresolved : ∀ r, Sound t p funs w r → Moment.Resolved t p ⟨env, r.store, r.origins, event⟩)
    (h : Q () { w with last := some event }) : Safe t p funs w (Traced.note env event) Q := by
  intro r hr
  -- Recording changes neither the store nor the scopes; only the latest event is another one.
  refine ⟨{ w with last := some event }, ?_, .refl w, h⟩
  exact ⟨hr.origins, hr.size, fun hframe hnames => (hr.frames hframe hnames).grow (.refl w),
    hr.length, hr.elements, rfl, List.forall_mem_cons.mpr ⟨htyped r hr, hr.typed⟩,
    List.forall_mem_cons.mpr ⟨hresolved r hr, hr.resolved⟩⟩

/-- A moment at which nothing is said of a value or a name. -/
theorem note_quiet {env : Env} {event : Event} {Q : Unit → World → Prop} (hvalue : ∀ e v, event ≠ .yields e v)
    (haccess : event.access? = none) (hcall : ∀ node name arity, event ≠ .calls node name arity)
    (h : Q () { w with last := some event }) : Safe t p funs w (Traced.note env event) Q := by
  refine note (fun r hr => ⟨hr.cellsConform, fun heq => absurd heq (hvalue _ _)⟩) (fun r hr => ⟨fun heq => ?_,
    fun heq => absurd heq (hcall _ _ _)⟩) h
  rw [haccess] at heq
  cases heq

end Safe

/-! ## §3 Names -/

/-- An environment is the path of the scopes whose names a context has; it ends with the globals. -/
structure Sees (G : Names) (o : Origins) (env : Env) (Γ : Context) : Prop where
  scopes : List.Forall₂ (fun scope names => o[scope]? = some names) env Γ
  root : 0 ∈ env
  globals : o[0]? = some G

namespace Sees

variable {G : Names} {o : Origins} {env : Env} {Γ : Context}

/-- The environment of the globals. -/
theorem ofGlobals (h : o[0]? = some G) : Sees G o .globals [G] :=
  ⟨.cons h .nil, List.mem_singleton_self 0, h⟩

theorem size_ne_zero (h : Sees G o env Γ) : o.size ≠ 0 :=
  Nat.ne_of_gt (Array.getElem?_eq_some_iff.mp h.globals).1

/-- A scope that has just been opened is in front of the path. -/
theorem push (h : Sees G o env Γ) (names : Names) : Sees G (o.push names) (o.size :: env) (names :: Γ) := by
  have hold : ∀ {scope : Nat} {names' : Names}, o[scope]? = some names' → (o.push names)[scope]? = some names' := by
    intro scope names' hscope
    rw [Array.getElem?_push, if_neg (Nat.ne_of_lt (Array.getElem?_eq_some_iff.mp hscope).1), hscope]
  refine ⟨.cons (by simp) (h.scopes.imp fun _ _ => hold), List.mem_cons_of_mem _ h.root, hold h.globals⟩

end Sees

/-- The first result along a list that has a result at one item alone, however often that item occurs. -/
theorem findSome?_of_only [DecidableEq α] {f : α → Option β} {l : List α} {a : α} {b : Option β} (ha : a ∈ l)
    (hf : ∀ x ∈ l, f x = if x = a then b else none) : l.findSome? f = b := by
  induction l with
  | nil => cases ha
  | cons x l ih =>
    have hx := hf x List.mem_cons_self
    have hrest := fun y hy => hf y (List.mem_cons_of_mem x hy)
    rw [List.findSome?_cons, hx]
    -- Later occurrences of the item give the same result, so they may be skipped.
    by_cases hxa : x = a
    · rw [if_pos hxa]
      cases b with
      | some b => rfl
      | none => exact List.findSome?_eq_none_iff.mpr fun y hy => by rw [hrest y hy, ite_self]
    · rw [if_neg hxa]
      exact ih ((List.mem_cons.mp ha).resolve_left (Ne.symm hxa)) hrest

namespace Sound

variable {r : Recorder} {G : Names} {env : Env} {Γ : Context}

/-- Looking a name up through the environment finds the variable that its declaration created. -/
theorem findVariable? (h : Sound t p funs w r) (hsees : Sees G w.origins env Γ) {name : String} {d : Nat}
    (hd : Γ.find? name = some d) : ∃ ref cell, r.store.findVariable? env name = some (ref, cell) ∧
      w.origins.origin? ref = some d ∧ CellOf t p w cell d := by
  -- Along the path of scopes, runtime and text either both find the name or both go on outwards.
  have hrel : Option.Rel (fun found d => w.origins.origin? found.1 = some d ∧ CellOf t p w found.2 d)
      (r.store.findVariable? env name) (Γ.find? name) := by
    refine findSome?_rel (hsees.scopes.imp fun scope names hnames => ?_)
    obtain ⟨frame, hframe, hof⟩ := h.frame_of_names hnames
    have hvar := hof.vars.lookup name
    unfold Store.cell? Frame.findVariable?
    rw [hframe]
    simp only
    cases hnone : names.lookup name with
    | none =>
      rw [hnone] at hvar
      generalize frame.vars.lookup name = found at hvar
      cases hvar
      exact .none
    | some d =>
      rw [hnone] at hvar
      generalize frame.vars.lookup name = found at hvar
      cases hvar with
      | some hcell =>
        refine .some ⟨?_, hcell⟩
        unfold Origins.origin?
        rw [hnames, Option.bind_some, hnone]
  -- The text finds it, hence so does the run.
  rw [hd] at hrel
  generalize r.store.findVariable? env name = found at hrel
  cases hrel with
  | @some found _ hfound => exact ⟨found.1, found.2, rfl, hfound.1, hfound.2⟩

/-- Looking a function up through the environment finds it among the globals. -/
theorem findFunction? (h : Sound t p funs w r) (hsees : Sees G w.origins env Γ) (name : String) (arity : Nat) :
    r.store.findFunction? env name arity = funs.lookup (name, arity) := by
  -- Functions are defined in the outermost scope alone, and every path ends there.
  refine findSome?_of_only hsees.root fun scope hmem => ?_
  obtain ⟨names, -, hnames⟩ := exists_of_mem_left hsees.scopes hmem
  obtain ⟨frame, hframe, hof⟩ := h.frame_of_names hnames
  simp only [hframe, Frame.findFunction?, hof.funs]
  split <;> rfl

variable {node : Node} {name : String} {v : VariableInfo}

/-- An access that stands for a declaration finds the variable that the declaration created. -/
theorem findsVariable (h : Sound t p funs w r) (hsees : Sees G w.origins env Γ)
    (hstands : Stands t p.bindings Γ node name v) (event : Event) :
    FindsVariable t p ⟨env, r.store, r.origins, event⟩ node name := by
  obtain ⟨d, hd, hbinding, hvariable, hnode⟩ := hstands
  obtain ⟨ref, cell, hfound, horigin, v', hv', hmutable, -⟩ := h.findVariable? hsees hd
  obtain rfl := Option.some.inj (hv'.symm.trans hvariable)
  exact ⟨ref, cell, d, v', hfound, by rw [h.origins, horigin], hbinding, hvariable, hnode, hmutable⟩

end Sound

/-- A reference to a variable that was created by a declaration with the given entry. -/
def RefersTo (t : SideTable) (w : World) (ref : VariableRef) (v : VariableInfo) : Prop :=
  ∃ d, w.origins.origin? ref = some d ∧ t.findVariable? d = some v

theorem RefersTo.later {w' : World} {ref : VariableRef} {v : VariableInfo} (h : RefersTo t w ref v)
    (horigins : w'.origins = w.origins) : RefersTo t w' ref v := by
  unfold RefersTo
  rw [horigins]
  exact h

namespace Safe

variable {G : Names} {env : Env} {Γ : Context} {node : Node} {name : String} {v : VariableInfo} {offset : Nat}

/-! ## §4 Variables -/

/-- Looking up an access yields a variable that holds what its entry says. -/
theorem resolve (hsees : Sees G w.origins env Γ) (hstands : Stands t p.bindings Γ node name v) :
    Safe t p funs w (Traced.lift (Eval.resolve env name offset)) fun found w' => w' = w ∧ RefersTo t w found.1 v ∧
      w.Fits found.2.value v.type v.list := by
  obtain ⟨d, hd, -, hvariable, -⟩ := hstands
  apply lift
  intro r hr
  obtain ⟨ref, cell, hfound, horigin, v', hv', -, hfits, -⟩ := hr.findVariable? hsees hd
  obtain rfl := Option.some.inj (hv'.symm.trans hvariable)
  rw [Eval.resolve_of_found hfound]
  exact ⟨w, hr, .refl w, rfl, ⟨d, horigin, hvariable⟩, hfits⟩

/-- What a variable holds is what its entry says. -/
theorem valueOf {ref : VariableRef} (href : RefersTo t w ref v) :
    Safe t p funs w (Traced.lift (Eval.valueOf ref)) fun value w' => w' = w ∧ w.Fits value v.type v.list := by
  obtain ⟨d, horigin, hvariable⟩ := href
  refine lift fun r hr => ⟨w, hr, .refl w, rfl, ?_⟩
  obtain ⟨cell, hcell, v', hv', -, hfits, -⟩ := hr.cell_of_origin horigin
  obtain rfl := Option.some.inj (hv'.symm.trans hvariable)
  rw [Store.valueOf, hcell]
  exact hfits

/-- Looking up the variable that an assignment changes fails only for an immutable global. -/
theorem receiver {target value : Expr} {nameOffset : Nat} (hsees : Sees G w.origins env Γ)
    (hstands : Stands t p.bindings Γ node name v) (hlast : w.last = some (.begins (.assignment offset target value)))
    (haccess : target.access? = some (node, name)) :
    Safe t p funs w (Traced.lift (Eval.receiver env name nameOffset offset)) fun ref w' =>
      w' = w ∧ RefersTo t w ref v := by
  obtain ⟨d, hd, hbinding, hvariable, hnode⟩ := hstands
  apply lift
  intro r hr
  obtain ⟨ref, cell, hfound, horigin, v', hv', hmutable, -, hglobal⟩ := hr.findVariable? hsees hd
  obtain rfl := Option.some.inj (hv'.symm.trans hvariable)
  unfold Eval.receiver
  rw [bind_of_ok (Eval.resolve_of_found hfound)]
  simp only
  -- The variable is found in both cases; only its mutability decides.
  cases hcell : cell.mutable with
  | true =>
    rw [if_pos rfl]
    exact ⟨w, hr, .refl w, rfl, d, horigin, hvariable⟩
  | false =>
    rw [if_neg Bool.false_ne_true]
    refine ⟨⟨w, hr⟩, ?_⟩
    -- Immutable variables are globals, so the failure is one that the record can point to.
    rw [hcell] at hmutable
    obtain ⟨g, hg, hid, hconstant⟩ := hglobal hmutable.symm
    obtain ⟨m, hm, hevent⟩ := Option.map_eq_some_iff.mp (hr.last.trans hlast)
    exact ⟨m, target, value, node, v', hm, hevent, haccess, hnode, hmutable.symm, g, hg, hid ▸ hbinding, hconstant,
      hid ▸ hvariable⟩

end Safe

/-! ## §5 Changes of the store -/

namespace Sound

variable {r : Recorder}

/-- The output does not matter. -/
theorem of_store (h : Sound t p funs w r) {s : Store} (hscopes : s.scopes = r.store.scopes)
    (hheap : s.heap = r.store.heap) : Sound t p funs w { r with store := s } := by
  refine ⟨h.origins, ?_, ?_, ?_, ?_, h.last, h.typed, h.resolved⟩
  · rw [hscopes]
    exact h.size
  · intro scope frame names hframe hnames
    rw [hscopes] at hframe
    exact h.frames hframe hnames
  · rw [hheap]
    exact h.length
  · intro ref τ hτ
    rw [hheap]
    exact h.elements hτ

/-- A variable may get another value that fits its entry. -/
theorem setValue (h : Sound t p funs w r) {ref : VariableRef} {v : VariableInfo} {value : Value}
    (href : RefersTo t w ref v) (hfits : w.Fits value v.type v.list) :
    Sound t p funs w { r with store := r.store.setValue ref value } := by
  obtain ⟨d, horigin, hvariable⟩ := href
  refine ⟨h.origins, ?_, ?_, h.length, h.elements, h.last, h.typed, h.resolved⟩
  · unfold Store.setValue
    rw [Array.size_modify]
    exact h.size
  · intro scope frame names hframe hnames
    simp only [Store.setValue, Array.getElem?_modify] at hframe
    split at hframe
    next heq =>
      obtain ⟨old, hold, rfl⟩ := Option.map_eq_some_iff.mp hframe
      have hof := h.frames hold hnames
      -- Names are distinct in a scope, so the cell that changes is the one of this declaration.
      have hupdate : ∀ cell d', (ref.name, d') ∈ names → CellOf t p w cell d' →
          CellOf t p w { cell with value := value } d' := ?_
      · exact ⟨hof.vars.map_key hupdate, hof.distinct, hof.funs⟩
      intro cell d' hmem hcell
      obtain rfl : d' = d := by
        unfold Origins.origin? at horigin
        rw [heq, hnames, Option.bind_some, lookup_of_mem hof.distinct hmem] at horigin
        exact Option.some.inj horigin
      obtain ⟨v', hv', hmutable, -, hglobal⟩ := hcell
      obtain rfl := Option.some.inj (hv'.symm.trans hvariable)
      exact ⟨v', hv', hmutable, hfits, hglobal⟩
    next => exact h.frames hframe hnames

/-- A list of elements of one type may be created. -/
theorem allocate (h : Sound t p funs w r) {τ : Ty} {values : List Value} (hvalues : ∀ v ∈ values, v.Conforms τ) :
    Sound t p funs { w with lists := w.lists ++ [τ] } { r with store := (r.store.allocate values).2 } := by
  have hgrows : w.Grows { w with lists := w.lists ++ [τ] } := List.prefix_append _ _
  refine ⟨h.origins, h.size, fun hframe hnames => (h.frames hframe hnames).grow hgrows, ?_, ?_, h.last, h.typed,
    h.resolved⟩
  · simp only [Store.allocate, Heap.allocate, Array.size_push, List.length_append, List.length_singleton, h.length]
  · intro ref σ hσ
    -- The new list gets the next reference; all others are as before.
    have helements : (r.store.allocate values).2.heap.elements ref =
        if ref = w.lists.length then values else r.store.heap.elements ref := by
      simp only [Store.allocate, Heap.allocate, Heap.elements, Array.getD_eq_getD_getElem?, Array.getElem?_push,
        h.length]
      split <;> rfl
    simp only [helements]
    split
    next heq =>
      subst heq
      rw [List.getElem?_concat_length] at hσ
      obtain rfl := Option.some.inj hσ
      exact hvalues
    next hne =>
      have hlt : ref < (w.lists ++ [τ]).length := (List.getElem?_eq_some_iff.mp hσ).1
      rw [List.length_append, List.length_singleton] at hlt
      rw [List.getElem?_append_left (Nat.lt_of_le_of_ne (Nat.le_of_lt_succ hlt) hne)] at hσ
      exact h.elements hσ

/-- An element of a list may be replaced by another value of the type of its elements. -/
theorem setElement (h : Sound t p funs w r) {ref : ListRef} {i : Nat} {τ : Ty} {value : Value}
    (hτ : w.lists[ref]? = some τ) (hvalue : value.Conforms τ) :
    Sound t p funs w { r with store := r.store.setElement ref i value } := by
  refine ⟨h.origins, h.size, fun hframe hnames => h.frames hframe hnames, ?_, ?_, h.last, h.typed, h.resolved⟩
  · simp only [Store.setElement, Heap.setElement, Array.size_modify, h.length]
  · intro other σ hσ v hv
    simp only [Store.setElement, Heap.setElement, Heap.elements, Array.getD_eq_getD_getElem?,
      Array.getElem?_modify] at hv
    split at hv
    next heq =>
      subst heq
      obtain rfl := Option.some.inj (hτ.symm.trans hσ)
      have hold := h.elements hτ
      simp only [Heap.elements, Array.getD_eq_getD_getElem?] at hold
      cases helements : r.store.heap.lists[ref]? with
      | none => simp [helements] at hv
      | some elements =>
        rw [helements] at hv hold
        -- An element of the changed list is an old one or the new value.
        rcases List.mem_or_eq_of_mem_set hv with hmem | rfl
        · exact hold v hmem
        · exact hvalue
    next =>
      apply h.elements hσ v
      simpa only [Heap.elements, Array.getD_eq_getD_getElem?] using hv

/-- A fresh scope may be opened. -/
theorem openScope (h : Sound t p funs w r) (hsize : w.origins.size ≠ 0) :
    Sound t p funs { w with origins := w.origins.push [] }
      { r with store := r.store.openScope, origins := r.origins.push [] } := by
  have hgrows : w.Grows { w with origins := w.origins.push [] } := .refl w
  refine ⟨by rw [h.origins], ?_, ?_, h.length, h.elements, h.last, h.typed, h.resolved⟩
  · simp only [Store.openScope, Array.size_push, h.size]
  · intro scope frame names hframe hnames
    simp only [Store.openScope, Array.getElem?_push, h.size] at hframe hnames
    -- The frame asked for is the new one or an old one.
    split at hframe
    next heq =>
      rw [if_pos heq] at hnames
      cases hframe
      cases hnames
      exact ⟨.nil, List.nodup_nil, by rw [heq, if_neg hsize]; rfl⟩
    next hne =>
      rw [if_neg hne] at hnames
      exact (h.frames hframe hnames).grow hgrows

/-- The scope opened last may be closed. -/
theorem closeScope (h : Sound t p funs w r) : Sound t p funs { w with origins := w.origins.pop }
    { r with store := r.store.closeScope, origins := r.origins.pop } := by
  have hgrows : w.Grows { w with origins := w.origins.pop } := .refl w
  refine ⟨by rw [h.origins], ?_, ?_, h.length, h.elements, h.last, h.typed, h.resolved⟩
  · simp only [Store.closeScope, Array.size_pop, h.size]
  · intro scope frame names hframe hnames
    simp only [Store.closeScope, Array.getElem?_pop, h.size] at hframe hnames
    split at hframe
    next hlt =>
      rw [if_pos hlt] at hnames
      exact (h.frames hframe hnames).grow hgrows
    next => cases hframe

/-- A name that is new in the innermost scope may be declared there. -/
theorem declare (h : Sound t p funs w r) {base : Origins} {names : Names} {name : String} {id : Nat} {cell : Cell}
    (horigins : w.origins = base.push names) (hnew : names.lookup name = none) (hcell : CellOf t p w cell id) :
    ∃ s, r.store.defineVariable? ⟨base.size, name⟩ cell = some s ∧
      Sound t p funs { w with origins := base.push ((name, id) :: names) }
        { r with store := s, origins := r.origins.modify base.size fun names => (name, id) :: names } := by
  have hnames : w.origins[base.size]? = some names := by rw [horigins, Array.getElem?_push_size]
  obtain ⟨frame, hframe, hof⟩ := h.frame_of_names hnames
  -- The name is new among the names, hence in the frame beside them.
  have hdefine : frame.defineVariable? name cell = some { frame with vars := (name, cell) :: frame.vars } :=
    Frame.defineVariable?_eq_some.mpr ⟨(hof.vars.lookup_eq_none_iff name).mpr hnew, rfl⟩
  have hstore : r.store.defineVariable? ⟨base.size, name⟩ cell = some { r.store with
      scopes := r.store.scopes.setIfInBounds base.size { frame with vars := (name, cell) :: frame.vars } } := by
    simp only [Store.defineVariable?, Store.updateScope?, hframe, hdefine, Option.map_some]
  refine ⟨_, hstore, ?_, ?_, ?_, h.length, h.elements, h.last, h.typed, h.resolved⟩
  · rw [h.origins, horigins]
    apply Array.ext_getElem?
    intro i
    rw [Array.getElem?_modify, Array.getElem?_push, Array.getElem?_push]
    by_cases hi : i = base.size
    · rw [if_pos hi, if_pos hi, if_pos hi.symm]
      rfl
    · rw [if_neg hi, if_neg hi, if_neg (Ne.symm hi)]
  · rw [Array.size_setIfInBounds, h.size, horigins, Array.size_push, Array.size_push]
  · intro scope frame' names' hframe' hnames'
    have hgrows : w.Grows { w with origins := base.push ((name, id) :: names) } := .refl w
    simp only [Array.getElem?_setIfInBounds, Array.getElem?_push] at hframe' hnames'
    -- Only the innermost scope has changed.
    by_cases hscope : scope = base.size
    · subst hscope
      rw [if_pos rfl] at hframe' hnames'
      have hlt : base.size < r.store.scopes.size := (Array.getElem?_eq_some_iff.mp hframe).1
      rw [if_pos hlt] at hframe'
      cases hframe'
      cases hnames'
      refine ⟨.cons (hcell.grow hgrows) (hof.grow hgrows).vars,
        List.nodup_cons.mpr ⟨fun hmem => ?_, hof.distinct⟩, hof.funs⟩
      obtain ⟨⟨_, d⟩, hd, rfl⟩ := List.mem_map.mp hmem
      rw [lookup_of_mem hof.distinct hd] at hnew
      cases hnew
    · rw [if_neg (Ne.symm hscope)] at hframe'
      rw [if_neg hscope] at hnames'
      have hold : w.origins[scope]? = some names' := by
        rw [horigins, Array.getElem?_push, if_neg hscope, hnames']
      exact (h.frames hframe' hold).grow hgrows

end Sound

namespace Safe

/-- Defining a variable whose name is new in the innermost scope. -/
theorem define {Q : Unit → World → Prop} {base : Origins} {names : Names} {env : Env} {node : Node} {name : String}
    {cell : Cell} (henv : env.headD 0 = base.size) (horigins : w.origins = base.push names)
    (hnew : names.lookup name = none) (hcell : CellOf t p w cell node.id)
    (h : Q () ⟨w.lists, base.push ((name, node.id) :: names), some (.declares node name)⟩) :
    Safe t p funs w (Traced.define env node name cell) Q := by
  intro r hr
  obtain ⟨s, hs, hsound⟩ := hr.declare horigins hnew hcell
  have hdefine : Traced.lift (Eval.define env name cell node.offset) r = .ok () { r with store := s } := by
    unfold Traced.lift Eval.define
    rw [get_bind, henv, hs]
    rfl
  unfold Traced.define
  rw [bind_of_ok hdefine, henv]
  have hnote : Safe t p funs ⟨w.lists, base.push ((name, node.id) :: names), w.last⟩
      (Traced.note env (.declares node name)) Q :=
    note_quiet (fun _ _ => Event.noConfusion) rfl (fun _ _ _ => Event.noConfusion) h
  exact hnote _ hsound

/-- Storing a value into a variable. -/
theorem setValue {ref : VariableRef} {v : VariableInfo} {value : Value} (href : RefersTo t w ref v)
    (hfits : w.Fits value v.type v.list) :
    Safe t p funs w (Traced.lift (modify fun s => s.setValue ref value)) fun _ w' => w' = w :=
  lift fun _ hr => ⟨w, hr.setValue href hfits, .refl w, rfl⟩

/-- Storing a value into an element of a list. -/
theorem setElement {ref : ListRef} {i : Nat} {τ : Ty} {value : Value} (hτ : w.lists[ref]? = some τ)
    (hvalue : value.Conforms τ) :
    Safe t p funs w (Traced.lift (modify fun s => s.setElement ref i value)) fun _ w' => w' = w :=
  lift fun _ hr => ⟨w, hr.setElement hτ hvalue, .refl w, rfl⟩

/-- Creating a list. -/
theorem newList {τ : Ty} {values : List Value} (hvalues : ∀ v ∈ values, v.Conforms τ) :
    Safe t p funs w (Traced.lift (Eval.newList values)) fun value w' =>
      w'.origins = w.origins ∧ w'.Fits value τ true := by
  refine lift fun r hr => ⟨_, hr.allocate hvalues, List.prefix_append _ _, rfl, r.store.heap.lists.size, rfl, ?_⟩
  rw [hr.length, List.getElem?_concat_length]

/-- Printing a value. -/
theorem print {v : Value} {offset : Nat} : Safe t p funs w (Traced.lift (Eval.builtin .print [v] offset))
    fun value w' => w' = w ∧ value = .nil := by
  apply lift
  intro r hr
  have hsound := fun sink => hr.of_store (s := { r.store with sink := sink }) rfl rfl
  have hwrite := Eval.write_eq (r.store.heap.display v ++ "\n") r.store
  simp only [Eval.builtin]
  rw [get_bind]
  -- A sink that is full is an error of the output, not of types or names.
  cases hcomplete : (r.store.sink.write (r.store.heap.display v ++ "\n")).1 with
  | true =>
    rw [hcomplete, if_pos rfl] at hwrite
    rw [bind_of_ok hwrite]
    exact ⟨w, hsound _, .refl w, rfl, rfl⟩
  | false =>
    rw [hcomplete, if_neg Bool.false_ne_true] at hwrite
    rw [bind_of_error hwrite]
    exact ⟨⟨w, hsound _⟩, trivial⟩

/-! ## §6 Scopes and moments -/

/-- Running a body in a fresh scope. -/
theorem inScope {body : Env → Traced α} {env : Env} {Q : α → World → Prop} (hsize : w.origins.size ≠ 0)
    (h : Safe t p funs { w with origins := w.origins.push [] } (body (w.origins.size :: env)) fun a w' =>
      (∃ names, w'.origins = w.origins.push names) ∧ Q a { w' with origins := w.origins }) :
    Safe t p funs w (Traced.inScope env body) Q := by
  intro r hr
  have hrun := h _ (hr.openScope hsize)
  unfold Traced.inScope
  rw [hr.size]
  cases heq : body (w.origins.size :: env) { r with store := r.store.openScope, origins := r.origins.push [] } with
  | ok a r' =>
    rw [heq] at hrun
    obtain ⟨w', hr', hgrows, ⟨names, hnames⟩, hQ⟩ := hrun
    have hclosed := hr'.closeScope
    rw [hnames, Array.pop_push] at hclosed
    exact ⟨_, hclosed, hgrows, hQ⟩
  | error e r' =>
    rw [heq] at hrun
    obtain ⟨⟨w', hr'⟩, hpermitted⟩ := hrun
    -- The scope is closed on failure as well.
    exact ⟨⟨_, hr'.closeScope⟩, hpermitted⟩

/-- Recording the moments before and after an evaluation. -/
theorem watch {env : Env} {before : Event} {after : α → Event} {body : Traced α} {P Q : α → World → Prop}
    (hbefore : Safe t p funs w (Traced.note env before) fun _ w' => w' = { w with last := some before })
    (hbody : Safe t p funs { w with last := some before } body P)
    (hafter : ∀ a w', P a w' → Safe t p funs w' (Traced.note env (after a)) fun _ w'' => Q a w'') :
    Safe t p funs w (Traced.watch env before after body) Q := by
  apply bind hbefore
  intro _ w' _ hw'
  subst hw'
  apply bind hbody
  intro a w' _ hP
  apply bind (hafter a w' hP)
  intro _ w'' _ hQ
  exact pure hQ

end Safe

end BlockLang
