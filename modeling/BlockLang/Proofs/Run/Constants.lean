import BlockLang.Proofs.Run.Erasure
import BlockLang.Proofs.Run.Footprint

/-!
# Constants

A global that is not mutable holds what its initializer yielded until the run ends, whatever the program does: the only
variables that are ever assigned are mutable ones, and no variable becomes mutable.  An assignment to it, or to an
element of the list that it holds, is refused before anything has been evaluated.

## Main definitions

- `Program.Initializes`: a global has just got its value.
- `Store.Refuses`: a variable cannot be assigned.

## Main statement

- `constant_never_changes`
-/

namespace BlockLang

open Stateful

/-! ## §1 Refused assignments -/

/-- The name of the variable that an assignment to an expression is about. -/
def Expr.receiver? : Expr → Option String
  | .variable _ name | .element _ name _ => some name
  | _ => none

/-- An assignment to the variable, or to an element of the list that it holds, fails when nothing has happened yet but
that it has begun: neither an index nor a value has been evaluated. -/
def Store.Refuses (s : Store) (ref : VariableRef) : Prop :=
  ∀ (n : Nat) (env : Env) (offset : Nat) (target value : Expr) (cell : Cell), target.receiver? = some ref.name →
    s.findVariable? env ref.name = some (ref, cell) →
    Eval.statement (n + 1) env (.assignment offset target value) s =
      .error (.error (.immutableAssignment ref.name offset)) s ∧
    ∀ origins moments, Traced.statement (n + 1) env (.assignment offset target value) ⟨s, origins, moments⟩ =
      .error (.error (.immutableAssignment ref.name offset))
        ⟨s, origins, ⟨env, s, origins, .begins (.assignment offset target value)⟩ :: moments⟩

theorem Eval.receiver_of_immutable {s : Store} {env : Env} {ref : VariableRef} {cell : Cell} (nameOffset offset : Nat)
    (hfound : s.findVariable? env ref.name = some (ref, cell)) (hmutable : cell.mutable = false) :
    receiver env ref.name nameOffset offset s = .error (.error (.immutableAssignment ref.name offset)) s := by
  rw [receiver_of_found hfound, hmutable]
  rfl

/-- An assignment begins with a look at the variable, whatever its index and its value are. -/
theorem Traced.assign_of_immutable {r : Recorder} {env : Env} {ref : VariableRef} {cell : Cell} {target : Expr}
    (eval : Expr → Traced Value) (value : Expr) (offset : Nat) (htarget : target.receiver? = some ref.name)
    (hfound : r.store.findVariable? env ref.name = some (ref, cell)) (hmutable : cell.mutable = false) :
    assign eval env target value offset r = .error (.error (.immutableAssignment ref.name offset)) r := by
  have hreceiver : ∀ nameOffset, lift (Eval.receiver env ref.name nameOffset offset) r =
      .error (.error (.immutableAssignment ref.name offset)) r := by
    intro nameOffset
    rw [lift_eq, Eval.receiver_of_immutable nameOffset offset hfound hmutable]
    rfl
  cases target with
  | «variable» node name =>
    obtain rfl : name = ref.name := Option.some.inj htarget
    exact bind_of_error (hreceiver node.offset)
  | element node name index =>
    obtain rfl : name = ref.name := Option.some.inj htarget
    exact bind_of_error (hreceiver node.offset)
  | literal | group | binary | call | list => cases htarget

/-- Of an evaluation that fails at once, only the beginning is recorded. -/
theorem Traced.watch_of_error {α : Type} {env : Env} {before : Event} {after : α → Event} {body : Traced α} {e : Stop}
    {r r' : Recorder}
    (h : body { r with moments := ⟨env, r.store, r.origins, before⟩ :: r.moments } = .error e r') :
    watch env before after body r = .error e r' :=
  (bind_of_ok rfl).trans (bind_of_error h)

/-- Variables that are not mutable cannot be assigned. -/
theorem Store.refuses_of_immutable {s : Store} {ref : VariableRef}
    (h : ∀ cell, s.cell? ref = some cell → cell.mutable = false) : s.Refuses ref := by
  intro n env offset target value cell htarget hfound
  obtain ⟨-, -, hcell⟩ := of_findVariable? hfound
  have htraced : ∀ origins moments,
      Traced.statement (n + 1) env (.assignment offset target value) ⟨s, origins, moments⟩ =
        .error (.error (.immutableAssignment ref.name offset))
          ⟨s, origins, ⟨env, s, origins, .begins (.assignment offset target value)⟩ :: moments⟩ := by
    intro origins moments
    exact Traced.watch_of_error
      (bind_of_error (Traced.assign_of_immutable _ value offset htarget hfound (h cell hcell)))
  refine ⟨?_, htraced⟩
  rw [← (Erases.everything (n + 1)).statement env _ ⟨s, #[], []⟩, htraced]
  rfl

/-! ## §2 Initialized globals -/

/-- A run has come to the point where it has evaluated the initializer of a global and defined the global with that
value. -/
def Program.Initializes (p : Program) (fuel : Nat) (limit : Option Nat) (g : Global) (v : Value) (r : Recorder) :
    Prop :=
  ∃ before after r₀ r₁, p.globals = before ++ g :: after ∧
    Traced.globals fuel before (.initial limit) = .ok () r₀ ∧
    Traced.optional (Traced.expression fuel .globals) g.value r₀ = .ok v r₁ ∧
    Traced.define .globals g.node g.name ⟨g.mutable, v⟩ r₁ = .ok () r

/-- Globals are initialized one after another. -/
theorem Traced.globals_append {fuel : Nat} {before : List Global} {r r' : Recorder} (rest : List Global)
    (h : globals fuel before r = .ok () r') : globals fuel (before ++ rest) r = globals fuel rest r' := by
  induction before generalizing r with
  | nil =>
    cases h
    rfl
  | cons g before ih =>
    obtain ⟨v, r₁, hvalue, h⟩ := bind_eq_ok.mp h
    obtain ⟨_, r₂, hdefine, h⟩ := bind_eq_ok.mp h
    refine (bind_of_ok hvalue).trans ((bind_of_ok hdefine).trans ?_)
    exact ih h

/-- The variable that has just been defined. -/
theorem Traced.cell?_of_define {env : Env} {node : Node} {name : String} {cell : Cell} {r r' : Recorder}
    (h : define env node name cell r = .ok () r') : r'.store.cell? ⟨env.headD 0, name⟩ = some cell := by
  have hdefine : Eval.define env name cell node.offset r.store = .ok () r'.store := by
    rw [← Erases.define env node name cell r, h]
    rfl
  obtain ⟨frame, changed, hframe, hchanged, heq⟩ := Store.updateScope?_eq_some.mp (Eval.define_eq_ok.mp hdefine)
  have hscope : r'.store.scopes[env.headD 0]? = some changed := by
    rw [heq]
    exact Array.getElem?_setIfInBounds_self_of_lt (Array.getElem?_eq_some_iff.mp hframe).1
  unfold Store.cell?
  simp only [hscope]
  rw [Frame.findVariable?_of_defineVariable? hchanged, if_pos rfl]

namespace Program.Initializes

variable {p : Program} {fuel : Nat} {limit : Option Nat} {g : Global} {v : Value} {r : Recorder}

theorem cell? (h : p.Initializes fuel limit g v r) : r.store.cell? ⟨0, g.name⟩ = some ⟨g.mutable, v⟩ := by
  obtain ⟨_, _, _, _, _, _, _, hdefine⟩ := h
  exact Traced.cell?_of_define hdefine

/-- The globals up to this one have been initialized. -/
theorem globals_eq (h : p.Initializes fuel limit g v r) : ∃ before after, p.globals = before ++ after ∧
    Traced.globals fuel before (.initial limit) = .ok () r := by
  obtain ⟨before, after, r₀, r₁, hglobals, hbefore, hvalue, hdefine⟩ := h
  refine ⟨before ++ [g], after, by rw [hglobals, List.append_assoc, List.singleton_append], ?_⟩
  rw [Traced.globals_append [g] hbefore]
  exact (bind_of_ok hvalue).trans (bind_of_ok hdefine)

/-- What is still to come stays within the footprint of the globals. -/
theorem stays_record (h : p.Initializes fuel limit g v r) :
    r.Stays (.ofStatement .globals) (p.record fuel limit) := by
  obtain ⟨before, after, hglobals, hbefore⟩ := h.globals_eq
  have hrooted : r.store.Rooted := by
    have htouches : Touches (.ofStatement .globals) (.initial limit) (Traced.globals fuel before) :=
      Touches.globals fuel before
    have hstays := htouches (Store.Rooted.initial limit)
    rw [hbefore] at hstays
    exact hstays.store.rooted
  -- From here on the run is one with the globals that are left.
  have hrest : Traced.globals fuel p.globals (.initial limit) = Traced.globals fuel after r := by
    rw [hglobals]
    exact Traced.globals_append after hbefore
  have hprogram : Traced.program fuel p (.initial limit) = (do
      Traced.globals fuel after
      Traced.lift (Eval.functions p.functions)
      Traced.call fuel .globals "main" [] (Eval.mainOffset p)) r := bind_congr hrest
  unfold Program.record
  rw [Traced.final_eq_state, hprogram]
  exact Touches.main fuel p after hrooted

end Program.Initializes

/-- **Constants never change.** From the moment when a global that is not mutable has been initialized until the run
ends, in whatever way it ends, the variable holds the value that its initializer yielded, and all assignments to it are
refused. -/
theorem constant_never_changes {p : Program} {fuel : Nat} {limit : Option Nat} {g : Global} {v : Value} {r : Recorder}
    (h : p.Initializes fuel limit g v r) (hconstant : g.mutable = false) :
    ∃ later, (p.record fuel limit).moments = later ++ r.moments ∧
      ∀ s ∈ r.store :: state (Eval.program fuel p (.initial limit)) :: later.map Moment.store,
        s.cell? ⟨0, g.name⟩ = some ⟨false, v⟩ ∧ s.Refuses ⟨0, g.name⟩ := by
  have hcell : r.store.cell? ⟨0, g.name⟩ = some ⟨false, v⟩ := hconstant ▸ h.cell?
  have hstays := h.stays_record
  obtain ⟨later, hmoments, hlater⟩ := hstays.moments
  refine ⟨later, hmoments, fun s hs => ?_⟩
  have hkeeps : r.store.Keeps (.ofStatement .globals) s := by
    obtain rfl | hs := List.mem_cons.mp hs
    · exact .refl _
    obtain rfl | hs := List.mem_cons.mp hs
    · exact p.record_store fuel limit ▸ hstays.store.keeps
    · obtain ⟨m, hm, rfl⟩ := List.mem_map.mp hs
      exact (hlater m hm).keeps
  -- A cell that is not mutable is kept as it is.
  obtain ⟨cell, hcell', hkept⟩ := hkeeps.cell? hcell
  rw [hkept.eq fun hwritten => Bool.false_ne_true hwritten.1] at hcell'
  refine ⟨hcell', Store.refuses_of_immutable fun c hc => ?_⟩
  obtain rfl : ⟨false, v⟩ = c := Option.some.inj (hcell'.symm.trans hc)
  rfl

/-- A constant that holds the same list as a variable; a parameter has its name: `LIST a: Integer = [5]; VAL k = a;
FUN bump(k: Integer): Integer DO k = k + 1; RETURN k; END
FUN main(): Integer DO a[0] = bump(k[0]); k[bump(0)] = bump(1); RETURN 0; END`. -/
def sharedListProgram : Program where
  globals := [⟨⟨0, 0⟩, "a", true, some "Integer", some (.list ⟨1, 18⟩ [.literal ⟨2, 19⟩ (.integer 5)])⟩,
    ⟨⟨3, 23⟩, "k", false, none, some (.variable ⟨4, 31⟩ "a")⟩]
  functions := [
    ⟨⟨5, 34⟩, "bump", [⟨⟨6, 43⟩, "k", "Integer"⟩], some "Integer",
      [.assignment 67 (.variable ⟨7, 67⟩ "k")
          (.binary ⟨10, 71⟩ .add (.variable ⟨8, 71⟩ "k") (.literal ⟨9, 75⟩ (.integer 1))),
        .returning 78 (.variable ⟨11, 85⟩ "k")]⟩,
    ⟨⟨12, 92⟩, "main", [], some "Integer",
      [.assignment 115 (.element ⟨14, 115⟩ "a" (.literal ⟨13, 117⟩ (.integer 0)))
          (.call ⟨17, 122⟩ "bump" [.element ⟨16, 127⟩ "k" (.literal ⟨15, 129⟩ (.integer 0))]),
        .assignment 134 (.element ⟨20, 134⟩ "k" (.call ⟨19, 136⟩ "bump" [.literal ⟨18, 141⟩ (.integer 0)]))
          (.call ⟨22, 147⟩ "bump" [.literal ⟨21, 152⟩ (.integer 1)]),
        .returning 156 (.literal ⟨23, 163⟩ (.integer 0))]⟩]

/-- The element of the list has changed when the run ends, and the constant still holds that list; the assignment
through the constant has ended the run. -/
theorem constant_never_changes_shared :
    ∃ g v r later, sharedListProgram.Initializes 20 none g v r ∧ g.name = "k" ∧ g.mutable = false ∧
      (sharedListProgram.record 20 none).moments = later ++ r.moments ∧
      (state (Eval.program 20 sharedListProgram (.initial none))).cell? ⟨0, "k"⟩ = some ⟨false, .list 0⟩ ∧
      (state (Eval.program 20 sharedListProgram (.initial none))).Refuses ⟨0, "k"⟩ ∧
      (state (Eval.program 20 sharedListProgram (.initial none))).heap.elements 0 = [.integer 6] ∧
      result (Eval.program 20 sharedListProgram (.initial none)) =
        .error (.error (.immutableAssignment "k" 134)) := by
  have hinitializes : ∃ r, sharedListProgram.Initializes 20 none
      ⟨⟨3, 23⟩, "k", false, none, some (.variable ⟨4, 31⟩ "a")⟩ (.list 0) r :=
    ⟨_, [⟨⟨0, 0⟩, "a", true, some "Integer", some (.list ⟨1, 18⟩ [.literal ⟨2, 19⟩ (.integer 5)])⟩], [], _, _, rfl,
      rfl, rfl, rfl⟩
  obtain ⟨r, hr⟩ := hinitializes
  obtain ⟨later, hmoments, hlater⟩ := constant_never_changes hr rfl
  obtain ⟨hcell, hrefuses⟩ := hlater _ (List.mem_cons_of_mem _ List.mem_cons_self)
  exact ⟨_, _, r, later, hr, rfl, rfl, hmoments, hcell, hrefuses, by decide +kernel, by decide +kernel⟩

end BlockLang
