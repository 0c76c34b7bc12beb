import BlockLang.Proofs.Run.Reachable

/-!
# No list contains itself

In every store that a program or a session can come to, no list can be reached from itself.  An indexed assignment is
refused exactly if it would change that, and looking through the elements of values always ends.

## Main statement

- `lists_never_contain_themselves`
-/

namespace BlockLang

open Stateful

/-! ## §1 Indexed assignments -/

/-- An indexed assignment that begins in the store `s` has found its mutable variable and evaluated its index and its
value: the store `t` it has come to, the list that the variable holds there, and the value. -/
inductive ReadyToStore (fuel : Nat) (env : Env) (name : String) (index value : Expr) (s : Store) :
    Store → ListRef → Value → Prop where
  | intro {ref : VariableRef} {cell : Cell} {position v : Value} {s' t : Store} {l : ListRef}
      (hfound : s.findVariable? env name = some (ref, cell)) (hmutable : cell.mutable = true)
      (hindex : Eval.expression fuel env index s = .ok position s')
      (hvalue : Eval.expression fuel env value s' = .ok v t) (hlist : t.valueOf ref = .list l) :
      ReadyToStore fuel env name index value s t l v

/-- An evaluation fails since a list would come to contain itself. -/
def FailsCyclic {α : Type} (result : EStateM.Result Stop Store α) : Prop :=
  ∃ name offset t, result = .error (.error (.cyclicList name offset)) t

namespace FailsCyclic

variable {α β : Type} {s : Store}

theorem not_ok {a : α} : ¬ FailsCyclic (.ok a s) := by
  simp [FailsCyclic]

/-- A sequence fails so exactly if one of its parts does. -/
theorem bind_iff {x : Eval α} {f : α → Eval β} :
    FailsCyclic ((x >>= f) s) ↔ FailsCyclic (x s) ∨ ∃ a t, x s = .ok a t ∧ FailsCyclic (f a t) := by
  cases hx : x s with
  | ok a t => simp [bind_of_ok hx, not_ok]
  | error e t => simp [bind_of_error hx, FailsCyclic]

theorem ofExcept_iff {x : Except RunError α} :
    FailsCyclic (Eval.ofExcept x s) ↔ ∃ name offset, x = .error (.cyclicList name offset) := by
  cases x with
  | ok a => exact iff_of_false not_ok (by simp)
  | error e =>
    change FailsCyclic (.error (.error e) s) ↔ _
    simp [FailsCyclic]

/-- Finding the place that an index denotes fails for other reasons. -/
theorem not_place {position : Value} {length offset : Nat} {f : Nat → Eval β} (hf : ∀ i t, ¬ FailsCyclic (f i t)) :
    ¬ FailsCyclic ((do
      let n ← Eval.ofExcept (position.asInteger offset)
      let i ← Eval.ofExcept (Value.checkedIndex n length offset)
      f i) s) := by
  have hinteger : ∀ name offset', position.asInteger offset ≠ .error (.cyclicList name offset') := by
    intro name offset'
    cases position <;> simp [Value.asInteger]
  have hindex : ∀ n name offset', Value.checkedIndex n length offset ≠ .error (.cyclicList name offset') := by
    intro n name offset'
    unfold Value.checkedIndex
    split <;> simp
  simp only [bind_iff, ofExcept_iff, not_or, not_exists, not_and]
  exact ⟨hinteger, fun n _ _ => ⟨hindex n, fun i t _ => hf i t⟩⟩

end FailsCyclic

section

variable {fuel : Nat} {env : Env} {name : String} {index value : Expr} {s t : Store} {l : ListRef} {v : Value}

/-- Once index and value have been evaluated, the assignment fails so exactly if the value leads to the list. -/
theorem ReadyToStore.failsCyclic_iff (h : ReadyToStore fuel env name index value s t l v) (node : Node)
    (offset : Nat) :
    FailsCyclic (Eval.statement (fuel + 1) env (.assignment offset (.element node name index) value) s) ↔
      t.heap.contains v l = true := by
  obtain ⟨hfound, hmutable, hindex, hvalue, hlist⟩ := h
  -- The statement is the assignment, and nothing follows that could fail.
  change FailsCyclic ((Eval.assign _ env (.element node name index) value offset >>= fun _ => pure Flow.normal) s) ↔ _
  have hrest : ∀ t', ¬ FailsCyclic ((pure Flow.normal : Eval Flow) t') := fun _ => FailsCyclic.not_ok
  rw [FailsCyclic.bind_iff, Eval.assign_element_of_found node hfound hmutable,
    Eval.storeElement_of_values _ hindex hvalue hlist]
  cases t.heap.contains v l with
  | true =>
    rw [if_pos rfl]
    exact iff_of_true (Or.inl ⟨_, _, _, rfl⟩) rfl
  | false =>
    rw [if_neg Bool.false_ne_true]
    have hstore : ∀ i t', ¬ FailsCyclic ((modify fun s => s.setElement l i v : Eval Unit) t') :=
      fun _ _ => FailsCyclic.not_ok
    simp [hrest, FailsCyclic.not_place hstore]

/-- In a regular store, values are evaluated to regular stores. -/
theorem ReadyToStore.regular (h : ReadyToStore fuel env name index value s t l v) (hs : s.Regular) : t.Regular := by
  obtain ⟨-, -, hindex, hvalue, -⟩ := h
  have hevaluates : ∀ {s s' : Store} {e : Expr} {v : Value}, s.Regular → Eval.expression fuel env e s = .ok v s' →
      s'.Regular := by
    intro s s' e v hs he
    have hrun := ((Proceeds.everything fuel).expression env s e).of_erases hs ((Erases.everything fuel).expression env e)
    rw [he] at hrun
    exact (hrun.1.regular hs).1
  exact hevaluates (hevaluates hs hindex) hvalue

end

/-! ## §2 Looking through elements -/

/-- Searching, comparing and printing are recursions over elements, and these end. -/
structure Heap.Recursive (h : Heap) : Prop where
  ends : WellFounded fun b a => h.PointsTo a b
  contains : ∀ a l, h.contains (.list a) l = (decide (a = l) || (h.elements a).any fun v => h.contains v l)
  same : ∀ a b, h.same (.list a) (.list b) = Heap.allSame h.same (h.elements a) (h.elements b)
  display : ∀ a, h.display (.list a) = "[" ++ ", ".intercalate ((h.elements a).map h.display) ++ "]"

/-- In every store that a run of any program or a session can come to, no list can be reached from itself, searching
finds exactly the lists that are reached, an indexed assignment that has evaluated index and value fails exactly if
storing would put its list on a cycle, and searching, comparing and printing end. -/
theorem lists_never_contain_themselves {s : Store} (hs : s.Reachable) :
    s.heap.Acyclic ∧
      (∀ v l, s.heap.contains v l = true ↔ s.heap.LeadsTo v l) ∧
      (∀ fuel env name index value t l v, ReadyToStore fuel env name index value s t l v → ∀ node offset,
        (FailsCyclic (Eval.statement (fuel + 1) env (.assignment offset (.element node name index) value) s) ↔
          t.heap.WouldCycle l v) ∧
        ∀ i < (t.heap.elements l).length, ((t.setElement l i v).heap.OnCycle l ↔ t.heap.WouldCycle l v)) ∧
      s.heap.Recursive := by
  have hacyclic := hs.regular.heap.acyclic
  refine ⟨hacyclic, hacyclic.contains_iff, ?_,
    hacyclic.wellFounded, hacyclic.contains_list, hacyclic.same_list, hacyclic.display_list⟩
  intro fuel env name index value t l v hready node offset
  have ht := (hready.regular hs.regular).heap.acyclic
  refine ⟨?_, fun i hi => ht.onCycle_setElement_iff hi v⟩
  rw [hready.failsCyclic_iff, ht.contains_iff, ht.wouldCycle_iff]

/-- A session with a list of one number, held by `inner`, and a list of that list, held by `outer`. -/
def nestedSession : Session :=
  let start := Session.start { Store.initial none with heap := ⟨#[[.integer 7], [.list 0]]⟩ }
  ((start.defineVariable "inner" ⟨true, .list 0⟩).2.defineVariable "outer" ⟨true, .list 1⟩).2

theorem nestedSession_reachable : nestedSession.Reachable := by
  have hlists : ∀ k, ∀ v ∈ (Heap.mk #[[.integer 7], [.list 0]]).elements k, v.Below k := by
    intro k v hv a hva
    subst hva
    match k with
    | 0 | k + 2 => simp [Heap.elements] at hv
    | 1 =>
      simp only [Heap.elements] at hv
      cases List.mem_singleton.mp hv
      decide
  have hstart := Session.Reachable.start none _ hlists
  have hinner := @Session.Reachable.defineVariable _ hstart "inner" ⟨true, .list 0⟩ (.list (Nat.zero_lt_two))
  exact @Session.Reachable.defineVariable _ hinner "outer" ⟨true, .list 1⟩ (.list (Nat.one_lt_two))

/-- In that session `inner[0] = outer` is refused, since it would put the inner list on a cycle. -/
theorem lists_never_contain_themselves_nested :
    nestedSession.store.Reachable ∧
      ReadyToStore 1 [0] "inner" (.literal ⟨0, 6⟩ (.integer 0)) (.variable ⟨1, 11⟩ "outer") nestedSession.store
        nestedSession.store 0 (.list 1) ∧
      FailsCyclic (Eval.statement 2 [0] (.assignment 9 (.element ⟨2, 0⟩ "inner" (.literal ⟨0, 6⟩ (.integer 0)))
        (.variable ⟨1, 11⟩ "outer")) nestedSession.store) ∧
      nestedSession.store.heap.WouldCycle 0 (.list 1) ∧
      0 < (nestedSession.store.heap.elements 0).length ∧
      (nestedSession.store.setElement 0 0 (.list 1)).heap.OnCycle 0 ∧ nestedSession.store.heap.Acyclic := by
  have hreachable : nestedSession.store.Reachable := .session nestedSession_reachable
  have hready : ReadyToStore 1 [0] "inner" (.literal ⟨0, 6⟩ (.integer 0)) (.variable ⟨1, 11⟩ "outer")
      nestedSession.store nestedSession.store 0 (.list 1) := .intro rfl rfl rfl rfl rfl
  obtain ⟨hacyclic, -, hassign, -⟩ := lists_never_contain_themselves hreachable
  obtain ⟨hfails, hcycle⟩ := hassign _ _ _ _ _ _ _ _ hready ⟨2, 0⟩ 9
  have hcyclic := hfails.mp ⟨_, _, _, rfl⟩
  exact ⟨hreachable, hready, hfails.mpr hcyclic, hcyclic, by decide, (hcycle 0 (by decide)).mpr hcyclic, hacyclic⟩

end BlockLang
