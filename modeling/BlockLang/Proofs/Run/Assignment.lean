import BlockLang.Proofs.Run.Constants
import BlockLang.Proofs.Run.Locality

/-!
# Assignments

An assignment looks its variable up, evaluates, checks and stores, in this order.  What fails before anything is
evaluated changes nothing; what fails once everything has been evaluated leaves the store as the evaluations left it;
and what succeeds changes one variable, or one element of one list, which everyone who holds the list sees.

## Main definitions

- `Store.Writes`, `Store.Replaces`: the change of one variable and the replacement of one element.
- `Store.place`: the checks between evaluating and storing.
- `Eval.Atomic`: what an assignment does to the store, however it ends.

## Main statement

- `assignment_atomic`
-/

namespace BlockLang

open Stateful

/-- The value that is reached from a value through the elements at some indices. -/
def Heap.follow? (h : Heap) : Value → List Nat → Option Value
  | v, [] => some v
  | .list a, i :: path => (h.elements a)[i]?.bind fun w => h.follow? w path
  | _, _ :: _ => none

theorem Heap.follow?_append (h : Heap) (v : Value) (path more : List Nat) :
    h.follow? v (path ++ more) = (h.follow? v path).bind fun w => h.follow? w more := by
  induction path generalizing v with
  | nil => rfl
  | cons i path ih =>
    cases v with
    | list a =>
      rw [List.cons_append, follow?, follow?, Option.bind_assoc]
      simp only [ih]
    | nil | boolean | integer | decimal | character | string => rfl

/-- Checking an index that is within bounds. -/
theorem Value.checkedIndex_eq_ok_iff {n : Int} {length offset i : Nat} :
    Value.checkedIndex n length offset = .ok i ↔ n = i ∧ i < length := by
  unfold Value.checkedIndex
  split
  · rw [Except.ok.injEq]
    omega
  · simp only [reduceCtorEq, false_iff, not_and]
    omega

/-! ## §1 Reading an element -/

theorem Store.valueOf_of_cell? {s : Store} {ref : VariableRef} {cell : Cell} (h : s.cell? ref = some cell) :
    s.valueOf ref = cell.value := by
  rw [valueOf, h]
  rfl

/-- An element is read from the list that the variable holds once the index has been evaluated. -/
theorem Eval.element_of_found {eval : Expr → Eval Value} {env : Env} {name : String} {index : Expr} {offset i : Nat}
    {s t : Store} {ref : VariableRef} {cell : Cell} {l : ListRef} {v : Value}
    (hfound : s.findVariable? env name = some (ref, cell)) (hindex : eval index s = .ok (.integer i) t)
    (hlist : t.valueOf ref = .list l) (hv : (t.heap.elements l)[i]? = some v) :
    element eval env name index offset s = .ok v t := by
  have hheld : valueOf ref t = .ok (.list l) t := by
    rw [← hlist]
    rfl
  obtain ⟨hi, -⟩ := List.getElem?_eq_some_iff.mp hv
  have hplace : Value.checkedIndex i (t.heap.elements l).length index.offset = .ok i :=
    Value.checkedIndex_eq_ok_iff.mpr ⟨rfl, hi⟩
  unfold element
  rw [bind_of_ok (resolve_of_found hfound)]
  change (eval index >>= _) s = _
  rw [bind_of_ok hindex, bind_of_ok hheld]
  change (ofExcept (Value.checkedIndex i (t.heap.elements l).length index.offset) >>= _) t = _
  rw [hplace]
  change EStateM.Result.ok ((t.heap.elements l).getD i .nil) t = _
  rw [List.getD_eq_getElem?_getD, hv, Option.getD_some]

namespace Store

variable {t u : Store} {ref : VariableRef} {l : ListRef} {i : Nat} {v : Value}

/-! ## §2 Changes of one place -/

/-- Only one variable has changed; it has a new value. -/
structure Writes (t u : Store) (ref : VariableRef) (v : Value) : Prop where
  cell : u.cell? ref = (t.cell? ref).map fun c => { c with value := v }
  others {other : VariableRef} (hother : other ≠ ref) : u.cell? other = t.cell? other
  functions (env : Env) (name : String) (arity : Nat) : u.findFunction? env name arity = t.findFunction? env name arity
  scopes : u.scopes.size = t.scopes.size
  heap : u.heap = t.heap
  sink : u.sink = t.sink

/-- Only one element of one list has changed, and it is seen through every variable that holds the list, and through
every list that leads to it. -/
structure Replaces (t u : Store) (l : ListRef) (i : Nat) (v : Value) : Prop where
  bound : i < (t.heap.elements l).length
  element : (u.heap.elements l)[i]? = some v
  others {a : ListRef} {j : Nat} (hother : (a, j) ≠ (l, i)) : (u.heap.elements a)[j]? = (t.heap.elements a)[j]?
  lists : u.heap.lists.size = t.heap.lists.size
  scopes : u.scopes = t.scopes
  sink : u.sink = t.sink
  held {eval : Expr → Eval Value} {env : Env} {name : String} {holder : VariableRef} {cell : Cell} {index : Expr}
    (hfound : t.findVariable? env name = some (holder, cell)) (hholds : cell.value = .list l)
    (hindex : eval index u = .ok (.integer i) u) (offset : Nat) : Eval.element eval env name index offset u = .ok v u
  contained {w : Value} {path : List Nat} (hpath : u.heap.follow? w path = some (.list l)) :
    u.heap.follow? w (path ++ [i]) = some v

theorem cell?_setValue (t : Store) (ref : VariableRef) (v : Value) (other : VariableRef) :
    (t.setValue ref v).cell? other =
      if other = ref then (t.cell? other).map fun c => { c with value := v } else t.cell? other := by
  obtain ⟨scope, name⟩ := ref
  obtain ⟨scope', name'⟩ := other
  simp only [cell?, setValue, Array.getElem?_modify, VariableRef.mk.injEq]
  -- Only the frame of one scope is modified; in the other scopes look-up finds what it found.
  by_cases hscope : scope = scope'
  · subst hscope
    cases t.scopes[scope]? with
    | none => simp
    | some frame => simp [Frame.findVariable?_updateVariable]
  · rw [if_neg hscope, if_neg fun h => hscope h.1.symm]

theorem findFunction?_setValue (t : Store) (ref : VariableRef) (v : Value) (env : Env) (name : String) (arity : Nat) :
    (t.setValue ref v).findFunction? env name arity = t.findFunction? env name arity := by
  unfold findFunction?
  refine congrArg (fun f => env.findSome? f) (funext fun scope => ?_)
  simp only [setValue, Array.getElem?_modify]
  by_cases hscope : ref.scope = scope
  · subst hscope
    cases t.scopes[ref.scope]? <;> simp [Frame.findFunction?, Frame.updateVariable]
  · rw [if_neg hscope]

theorem writes_setValue (t : Store) (ref : VariableRef) (v : Value) : t.Writes (t.setValue ref v) ref v where
  cell := by rw [cell?_setValue, if_pos rfl]
  others hother := by rw [cell?_setValue, if_neg hother]
  functions := findFunction?_setValue t ref v
  scopes := Array.size_modify
  heap := rfl
  sink := rfl

theorem replaces_setElement (hi : i < (t.heap.elements l).length) (v : Value) :
    t.Replaces (t.setElement l i v) l i v := by
  have hself : (t.setElement l i v).heap.elements l = (t.heap.elements l).set i v := by
    rw [setElement, Heap.elements_setElement, if_pos rfl]
  have helement : ((t.setElement l i v).heap.elements l)[i]? = some v := by
    rw [hself, List.getElem?_set_self hi]
  refine ⟨hi, helement, fun hother => ?_, Heap.size_setElement .., rfl, rfl, fun hfound hholds hindex offset => ?_,
    fun hpath => ?_⟩
  · rw [setElement, Heap.elements_setElement]
    split
    next hal =>
      subst hal
      exact List.getElem?_set_ne fun hij => hother (by rw [hij])
    next => rfl
  · -- No variable has changed, so the holder still holds the list.
    obtain ⟨-, -, hcell⟩ := of_findVariable? hfound
    exact Eval.element_of_found hfound hindex ((valueOf_of_cell? hcell).trans hholds) helement
  · rw [Heap.follow?_append, hpath, Option.bind_some, Heap.follow?, helement]
    rfl

/-! ## §3 From evaluating to storing -/

/-- Where an evaluated indexed assignment stores: the list that the variable holds by now, and the place that the index
denotes in it. -/
def place (t : Store) (ref : VariableRef) (position v : Value) (receiver index offset : Nat) :
    Except RunError (ListRef × Nat) := do
  let l ← (t.valueOf ref).asList receiver
  if t.heap.contains v l then .error (.cyclicList ref.name offset) else
    let n ← position.asInteger index
    let i ← Value.checkedIndex n (t.heap.elements l).length index
    return (l, i)

theorem place_eq_ok_iff {position : Value} {receiver index offset : Nat} :
    t.place ref position v receiver index offset = .ok (l, i) ↔ t.valueOf ref = .list l ∧
      t.heap.contains v l = false ∧ position = .integer i ∧ i < (t.heap.elements l).length := by
  -- Every check ends with an error of its own or hands over to the next one.
  unfold place
  cases hheld : t.valueOf ref with
  | nil | boolean | integer | decimal | character | string => exact ⟨nofun, nofun⟩
  | list a =>
    change (if t.heap.contains v a then _ else _) = _ ↔ _
    cases hcontains : t.heap.contains v a with
    | true =>
      refine ⟨nofun, ?_⟩
      rintro ⟨⟨⟩, hfalse, -⟩
      rw [hcontains] at hfalse
      cases hfalse
    | false =>
      cases position with
      | nil | boolean | decimal | character | string | list => exact ⟨nofun, nofun⟩
      | integer n =>
        change (Value.checkedIndex n (t.heap.elements a).length index >>= fun i => .ok (a, i)) = .ok (l, i) ↔ _
        constructor
        · intro h
          cases hchecked : Value.checkedIndex n (t.heap.elements a).length index with
          | error e =>
            rw [hchecked] at h
            cases h
          | ok j =>
            rw [hchecked] at h
            cases h
            obtain ⟨rfl, hj⟩ := Value.checkedIndex_eq_ok_iff.mp hchecked
            exact ⟨rfl, hcontains, rfl, hj⟩
        · rintro ⟨⟨⟩, -, ⟨⟩, hi⟩
          rw [Value.checkedIndex_eq_ok_iff.mpr ⟨rfl, hi⟩]
          rfl

/-- What can be wrong once everything has been evaluated. -/
theorem place_eq_error {position : Value} {receiver index offset : Nat} {e : RunError}
    (h : t.place ref position v receiver index offset = .error e) :
    (∃ fault o, e = .typeFault fault o) ∨ e = .cyclicList ref.name offset ∨
      ∃ n length, e = .indexOutOfBounds n length index := by
  unfold place at h
  -- The receiver is looked at first, then whether the value holds it, and the index last.
  cases hheld : t.valueOf ref with
  | nil | boolean | integer | decimal | character | string =>
    rw [hheld] at h
    cases h
    exact Or.inl ⟨_, _, rfl⟩
  | list a =>
    rw [hheld] at h
    change (if t.heap.contains v a then _ else _) = _ at h
    split at h
    · cases h
      exact Or.inr (Or.inl rfl)
    · cases position with
      | nil | boolean | decimal | character | string | list =>
        cases h
        exact Or.inl ⟨_, _, rfl⟩
      | integer n =>
        change (Value.checkedIndex n (t.heap.elements a).length index >>= fun i => .ok (a, i)) = _ at h
        unfold Value.checkedIndex at h
        split at h
        · cases h
        · cases h
          exact Or.inr (Or.inr ⟨_, _, rfl⟩)

end Store

namespace Eval

variable {eval : Expr → Eval Value} {env : Env} {name : String} {index value : Expr} {offset : Nat}
  {s s' t u : Store} {ref : VariableRef} {cell : Cell} {position v : Value}

/-- Once index and value have been evaluated, all that is left is to check and to store. -/
theorem storeElement_of_evaluated (receiver : Expr) (hindex : eval index s = .ok position s')
    (hvalue : eval value s' = .ok v t) : storeElement eval ref index value receiver offset s =
      match t.place ref position v receiver.offset index.offset offset with
      | .ok (l, i) => .ok () (t.setElement l i v)
      | .error e => .error (.error e) t := by
  -- Storing makes the same checks in the same order.
  unfold Store.place
  cases hheld : t.valueOf ref with
  | list l =>
    rw [storeElement_of_values receiver hindex hvalue hheld]
    change _ = match (if t.heap.contains v l then _ else _ : Except RunError (ListRef × Nat)) with
      | .ok (l, i) => _
      | .error e => _
    split
    next => rfl
    next =>
      cases position with
      | nil | boolean | decimal | character | string | list => rfl
      | integer n =>
        change (ofExcept (Value.checkedIndex n (t.heap.elements l).length index.offset) >>= _) t =
          match (Value.checkedIndex n (t.heap.elements l).length index.offset >>= fun i => .ok (l, i)) with
          | .ok (l, i) => _
          | .error e => _
        cases Value.checkedIndex n (t.heap.elements l).length index.offset <;> rfl
  | nil | boolean | integer | decimal | character | string =>
    have hvariable : valueOf ref t = .ok (t.valueOf ref) t := rfl
    unfold storeElement
    rw [bind_of_ok hindex, bind_of_ok hvalue, bind_of_ok hvariable, hheld]
    rfl

/-- Storing succeeds only into an element that is there. -/
theorem storeElement_eq_ok {receiver : Expr} (h : storeElement eval ref index value receiver offset s = .ok () u) :
    ∃ s' t v l, ∃ i : Nat, eval index s = .ok (.integer i) s' ∧ eval value s' = .ok v t ∧ t.valueOf ref = .list l ∧
      t.Replaces u l i v := by
  obtain ⟨position, s', hindex, hrest⟩ := bind_eq_ok.mp h
  obtain ⟨v, t, hvalue, -⟩ := bind_eq_ok.mp hrest
  rw [storeElement_of_evaluated receiver hindex hvalue] at h
  split at h
  next l i hplace =>
    cases h
    obtain ⟨hheld, -, rfl, hi⟩ := Store.place_eq_ok_iff.mp hplace
    exact ⟨s', t, v, l, i, hindex, hvalue, hheld, Store.replaces_setElement hi v⟩
  next => cases h

/-- Checks that fail leave the store as the evaluations left it. -/
theorem storeElement_eq_error {receiver : Expr} {e : Stop} (hindex : eval index s = .ok position s')
    (hvalue : eval value s' = .ok v t) (h : storeElement eval ref index value receiver offset s = .error e u) :
    u = t ∧ ((∃ fault o, e = .error (.typeFault fault o)) ∨ e = .error (.cyclicList ref.name offset) ∨
      ∃ n length, e = .error (.indexOutOfBounds n length index.offset)) := by
  rw [storeElement_of_evaluated receiver hindex hvalue] at h
  split at h
  next => cases h
  next e' hplace =>
    cases h
    refine ⟨rfl, ?_⟩
    obtain ⟨fault, o, rfl⟩ | rfl | ⟨n, length, rfl⟩ := Store.place_eq_error hplace
    · exact Or.inl ⟨fault, o, rfl⟩
    · exact Or.inr (Or.inl rfl)
    · exact Or.inr (Or.inr ⟨n, length, rfl⟩)

/-! ## §4 Assignments -/

/-- What an assignment does to the store from which it starts, however it ends.  An assignment that is refused does not
depend on the evaluator: nothing has been evaluated. -/
structure Atomic (eval : Expr → Eval Value) (env : Env) (value : Expr) (offset : Nat) (s : Store) : Prop where
  replaces {node : Node} {name : String} {index : Expr} {u : Store}
    (h : assign eval env (.element node name index) value offset s = .ok () u) :
    ∃ ref cell s' t v l, ∃ i : Nat, s.findVariable? env name = some (ref, cell) ∧ cell.mutable = true ∧
      eval index s = .ok (.integer i) s' ∧ eval value s' = .ok v t ∧ t.valueOf ref = .list l ∧ t.Replaces u l i v
  writes {node : Node} {name : String} {u : Store}
    (h : assign eval env (.variable node name) value offset s = .ok () u) :
    ∃ ref cell t v, s.findVariable? env name = some (ref, cell) ∧ cell.mutable = true ∧ eval value s = .ok v t ∧
      t.Writes u ref v
  element_succeeds {node : Node} {name : String} {index : Expr} {ref : VariableRef} {cell : Cell} {v : Value}
    {s' t : Store} {l : ListRef} {i : Nat} (hfound : s.findVariable? env name = some (ref, cell))
    (hmutable : cell.mutable = true) (hindex : eval index s = .ok (.integer i) s')
    (hvalue : eval value s' = .ok v t) (hlist : t.valueOf ref = .list l) (hcontains : t.heap.contains v l = false)
    (hi : i < (t.heap.elements l).length) :
    ∃ u, assign eval env (.element node name index) value offset s = .ok () u
  variable_succeeds {node : Node} {name : String} {ref : VariableRef} {cell : Cell} {v : Value} {t : Store}
    (hfound : s.findVariable? env name = some (ref, cell)) (hmutable : cell.mutable = true)
    (hvalue : eval value s = .ok v t) : ∃ u, assign eval env (.variable node name) value offset s = .ok () u
  fails {node : Node} {name : String} {index : Expr} {ref : VariableRef} {cell : Cell} {position v : Value}
    {s' t u : Store} {e : Stop} (hfound : s.findVariable? env name = some (ref, cell)) (hmutable : cell.mutable = true)
    (hindex : eval index s = .ok position s') (hvalue : eval value s' = .ok v t)
    (h : assign eval env (.element node name index) value offset s = .error e u) :
    u = t ∧ ((∃ fault o, e = .error (.typeFault fault o)) ∨ e = .error (.cyclicList name offset) ∨
      ∃ n length, e = .error (.indexOutOfBounds n length index.offset))
  unknown {target : Expr} {name : String} (htarget : target.receiver? = some name)
    (hfound : s.findVariable? env name = none) :
    assign eval env target value offset s = .error (.error (.unknownVariable name target.offset)) s
  immutable {target : Expr} {name : String} {ref : VariableRef} {cell : Cell} (htarget : target.receiver? = some name)
    (hfound : s.findVariable? env name = some (ref, cell)) (hmutable : cell.mutable = false) :
    assign eval env target value offset s = .error (.error (.immutableAssignment name offset)) s
  no_variable {target : Expr} (htarget : target.receiver? = none) :
    assign eval env target value offset s = .error (.error (.typeFault .receiver offset)) s

/-- A mutable variable takes any value. -/
theorem assign_variable_of_evaluated (node : Node) (hfound : s.findVariable? env name = some (ref, cell))
    (hmutable : cell.mutable = true) (hvalue : eval value s = .ok v t) :
    assign eval env (.variable node name) value offset s = .ok () (t.setValue ref v) := by
  have hreceiver : receiver env name node.offset offset s = .ok ref s :=
    receiver_eq_ok.mpr ⟨rfl, cell, hfound, hmutable⟩
  exact (bind_of_ok hreceiver).trans (bind_of_ok hvalue)

/-- An assignment whose receiver is refused has done nothing. -/
theorem assign_of_refused {target : Expr} (htarget : target.receiver? = some name) {e : Stop}
    (h : receiver env name target.offset offset s = .error e s) :
    assign eval env target value offset s = .error e s := by
  cases target with
  | «variable» node name' =>
    cases htarget
    exact bind_of_error h
  | element node name' index =>
    cases htarget
    exact bind_of_error h
  | literal | group | binary | call | list => cases htarget

theorem atomic (eval : Expr → Eval Value) (env : Env) (value : Expr) (offset : Nat) (s : Store) :
    Atomic eval env value offset s where
  replaces h := by
    obtain ⟨ref, _, hreceiver, hstore⟩ := bind_eq_ok.mp h
    obtain ⟨rfl, cell, hfound, hmutable⟩ := receiver_eq_ok.mp hreceiver
    obtain ⟨s', t, v, l, i, hindex, hvalue, hheld, hreplaces⟩ := storeElement_eq_ok hstore
    exact ⟨ref, cell, s', t, v, l, i, hfound, hmutable, hindex, hvalue, hheld, hreplaces⟩
  writes h := by
    obtain ⟨ref, _, hreceiver, hrest⟩ := bind_eq_ok.mp h
    obtain ⟨rfl, cell, hfound, hmutable⟩ := receiver_eq_ok.mp hreceiver
    obtain ⟨v, t, hvalue, hset⟩ := bind_eq_ok.mp hrest
    cases hset
    exact ⟨ref, cell, t, v, hfound, hmutable, hvalue, Store.writes_setValue t ref v⟩
  element_succeeds hfound hmutable hindex hvalue hlist hcontains hi := by
    rw [assign_element_of_found _ hfound hmutable, storeElement_of_evaluated _ hindex hvalue,
      Store.place_eq_ok_iff.mpr ⟨hlist, hcontains, rfl, hi⟩]
    exact ⟨_, rfl⟩
  variable_succeeds hfound hmutable hvalue := ⟨_, assign_variable_of_evaluated _ hfound hmutable hvalue⟩
  fails hfound hmutable hindex hvalue h := by
    obtain ⟨-, rfl, -⟩ := Store.of_findVariable? hfound
    rw [assign_element_of_found _ hfound hmutable] at h
    exact storeElement_eq_error hindex hvalue h
  unknown htarget hfound := assign_of_refused htarget (receiver_of_not_found hfound)
  immutable htarget hfound hmutable := by
    refine assign_of_refused htarget ?_
    rw [receiver_of_found hfound, hmutable]
    rfl
  no_variable {target} htarget := by
    cases target with
    | «variable» | element => cases htarget
    | literal | group | binary | call | list => rfl

end Eval

/-- From a rooted store on, the variable that is assigned is still there once the value has been evaluated. -/
theorem Store.Rooted.cell?_of_assign {s u : Store} {n : Nat} {env : Env} {node : Node} {name : String} {value : Expr}
    {offset : Nat} (hs : s.Rooted)
    (h : Eval.assign (Eval.expression n env) env (.variable node name) value offset s = .ok () u) :
    ∃ ref cell t v, s.findVariable? env name = some (ref, cell) ∧ Eval.expression n env value s = .ok v t ∧
      u.cell? ref = some ⟨true, v⟩ := by
  obtain ⟨ref, cell, t, v, hfound, hmutable, hvalue, hwrites⟩ := (Eval.atomic _ env value offset s).writes h
  obtain ⟨-, -, hcell⟩ := of_findVariable? hfound
  obtain ⟨hkeeps, -⟩ := hs.keeps_expression n env value
  rw [hvalue] at hkeeps
  -- The evaluation may have assigned the variable, but it has kept it, and it is as mutable as before.
  obtain ⟨cell', hcell' : t.cell? ref = some cell', hkept⟩ := hkeeps.cell? hcell
  refine ⟨ref, cell, t, v, hfound, hvalue, ?_⟩
  rw [hwrites.cell, hcell', Option.map_some, hkept.mutable_eq, hmutable]

/-- **Assignments are atomic and minimal.** Whatever the evaluator, an assignment that succeeds changes one variable,
or one element of one list, of what the evaluations left; one that fails afterwards changes nothing more, and one that
is refused changes nothing at all.  In a run, the variable that is assigned then holds the value. -/
theorem assignment_atomic :
    (∀ eval env value offset s, Eval.Atomic eval env value offset s) ∧
    ∀ (p : Program) (fuel : Nat) (limit : Option Nat), ∀ m ∈ (p.record fuel limit).moments,
      ∀ n env node name value offset u,
        Eval.assign (Eval.expression n env) env (.variable node name) value offset m.store = .ok () u →
        ∃ ref cell t v, m.store.findVariable? env name = some (ref, cell) ∧
          Eval.expression n env value m.store = .ok v t ∧ u.cell? ref = some ⟨true, v⟩ := by
  refine ⟨Eval.atomic, ?_⟩
  intro p fuel limit m hm n env node name value offset u h
  exact (Program.rooted_of_moment hm).cell?_of_assign h

/-- `a[0]`, where `a` is `rebindingProgram`'s first list. -/
def rebindingReceiver : Expr := .element ⟨15, 117⟩ "a" (.literal ⟨14, 119⟩ (.integer 0))

/-- `rebind()`. -/
def rebindingCall : Expr := .call ⟨16, 124⟩ "rebind" []

/-- The variable that is assigned gets another list while the value is evaluated:
`LIST a: Any = [1]; LIST b: Any = [2]; LIST c: Any = [b]; FUN rebind(): Integer DO a = b; RETURN 7; END
FUN main() DO a[0] = rebind(); END`. -/
def rebindingProgram : Program where
  globals := [⟨⟨0, 0⟩, "a", true, some "Any", some (.list ⟨1, 14⟩ [.literal ⟨2, 15⟩ (.integer 1)])⟩,
    ⟨⟨3, 19⟩, "b", true, some "Any", some (.list ⟨4, 33⟩ [.literal ⟨5, 34⟩ (.integer 2)])⟩,
    ⟨⟨6, 38⟩, "c", true, some "Any", some (.list ⟨7, 52⟩ [.variable ⟨8, 53⟩ "b"])⟩]
  functions := [
    ⟨⟨9, 57⟩, "rebind", [], some "Integer",
      [.assignment 82 (.variable ⟨10, 82⟩ "a") (.variable ⟨11, 86⟩ "b"),
        .returning 89 (.literal ⟨12, 96⟩ (.integer 7))]⟩,
    ⟨⟨13, 103⟩, "main", [], none, [.assignment 117 rebindingReceiver rebindingCall]⟩]

/-- The element that is replaced is one of the list that the variable has got meanwhile, and the change is seen through
the list that contains this list.  An assignment of the whole variable from there leaves the variable with the value. -/
theorem assignment_atomic_rebinding :
    ∃ m ∈ (rebindingProgram.record 20 none).moments, ∃ t u u' : Store,
      Eval.assign (Eval.expression 10 m.env) m.env rebindingReceiver rebindingCall 117 m.store = .ok () u ∧
      m.store.valueOf ⟨0, "a"⟩ = .list 0 ∧ t.valueOf ⟨0, "a"⟩ = .list 1 ∧ t.Replaces u 1 0 (.integer 7) ∧
      u.heap.follow? (.list 2) [0, 0] = some (.integer 7) ∧
      Eval.assign (Eval.expression 10 m.env) m.env (.variable ⟨10, 82⟩ "a") rebindingCall 82 m.store = .ok () u' ∧
      u'.cell? ⟨0, "a"⟩ = some ⟨true, .integer 7⟩ := by
  obtain ⟨m, hm, hassign, hwhole, hname, hold, hvalue, hheld, hpath⟩ :
      ∃ m ∈ (rebindingProgram.record 20 none).moments,
        let x := Eval.assign (Eval.expression 10 m.env) m.env rebindingReceiver rebindingCall 117 m.store
        let call := Eval.expression 10 m.env rebindingCall m.store
        result x = .ok () ∧
        result (Eval.assign (Eval.expression 10 m.env) m.env (.variable ⟨10, 82⟩ "a") rebindingCall 82 m.store) =
          .ok () ∧
        (m.store.findVariable? m.env "a").map Prod.fst = some ⟨0, "a"⟩ ∧ m.store.valueOf ⟨0, "a"⟩ = .list 0 ∧
        result call = .ok (.integer 7) ∧ (state call).valueOf ⟨0, "a"⟩ = .list 1 ∧
        (state x).heap.follow? (.list 2) [0] = some (.list 1) := by
    decide +kernel
  have hassign := eq_ok_of_result hassign
  have hwhole := eq_ok_of_result hwhole
  have hvalue := eq_ok_of_result hvalue
  obtain ⟨ref, cell, s', t, v, l, i, hfound, -, hindex, hvalue', hlist, hreplaces⟩ :=
    (assignment_atomic.1 _ _ _ _ _).replaces hassign
  obtain ⟨ref', cell', t', v', hfound', hvalue'', hcell⟩ := assignment_atomic.2 _ _ _ m hm _ _ _ _ _ _ _ hwhole
  obtain ⟨hposition, rfl⟩ := EStateM.Result.ok.inj hindex
  obtain rfl : i = 0 := by
    have hzero : (0 : Int) = i := Value.integer.inj hposition
    omega
  -- Both assignments start from the same store, so they evaluate the same value and find the same variable.
  obtain ⟨rfl, rfl⟩ := EStateM.Result.ok.inj (hvalue.symm.trans hvalue')
  obtain ⟨rfl, -⟩ := EStateM.Result.ok.inj (hvalue.symm.trans hvalue'')
  rw [hfound] at hname
  obtain rfl := Option.some.inj hname
  obtain ⟨rfl, -⟩ := Prod.mk.inj (Option.some.inj (hfound.symm.trans hfound'))
  obtain rfl := Value.list.inj (hheld.symm.trans hlist)
  exact ⟨m, hm, _, _, _, hassign, hold, hheld, hreplaces, hreplaces.contained hpath, hwhole, hcell⟩

end BlockLang
