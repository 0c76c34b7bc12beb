import BlockLang.Proofs.Stateful
import BlockLang.Run.Evaluation

/-!
# What single steps do

The outcome of looking a name up, of finding the variable to assign, and of writing, from a given store; and steps that
leave the store or its scopes as they are.
-/

namespace BlockLang

namespace Eval

open Stateful

variable {s : Store} {env : Env} {name : String} {offset : Nat}

/-! ## §1 Names -/

theorem resolve_of_found {found : VariableRef × Cell} (h : s.findVariable? env name = some found) :
    resolve env name offset s = .ok found s := by
  unfold resolve
  rw [get_bind, h]
  rfl

theorem resolve_of_not_found (h : s.findVariable? env name = none) :
    resolve env name offset s = .error (.error (.unknownVariable name offset)) s := by
  unfold resolve
  rw [get_bind, h]
  rfl

/-- The variable that an assignment changes is the one that the name stands for, if it is mutable. -/
theorem receiver_of_found {ref : VariableRef} {cell : Cell} {nameOffset : Nat}
    (h : s.findVariable? env name = some (ref, cell)) : receiver env name nameOffset offset s =
      if cell.mutable then .ok ref s else .error (.error (.immutableAssignment name offset)) s := by
  unfold receiver
  rw [bind_of_ok (resolve_of_found h)]
  simp only
  cases cell.mutable <;> rfl

theorem receiver_of_not_found {nameOffset : Nat} (h : s.findVariable? env name = none) :
    receiver env name nameOffset offset s = .error (.error (.unknownVariable name nameOffset)) s := by
  unfold receiver
  rw [bind_of_error (resolve_of_not_found h)]

/-- An assignment goes on only with a mutable variable, and nothing has happened by then. -/
theorem receiver_eq_ok {nameOffset : Nat} {ref : VariableRef} {t : Store} :
    receiver env name nameOffset offset s = .ok ref t ↔
      t = s ∧ ∃ cell, s.findVariable? env name = some (ref, cell) ∧ cell.mutable = true := by
  constructor
  · intro h
    cases hfound : s.findVariable? env name with
    | none =>
      rw [receiver_of_not_found hfound] at h
      cases h
    | some found =>
      rw [receiver_of_found hfound] at h
      split at h
      next hmutable =>
        cases h
        exact ⟨rfl, found.2, rfl, hmutable⟩
      next => cases h
  · rintro ⟨rfl, cell, hfound, hmutable⟩
    rw [receiver_of_found hfound, if_pos hmutable]

/-- A definition succeeds exactly if the innermost scope of the environment takes the variable. -/
theorem define_eq_ok {cell : Cell} {t : Store} : define env name cell offset s = .ok () t ↔
    s.defineVariable? ⟨env.headD 0, name⟩ cell = some t := by
  unfold define
  rw [get_bind]
  cases s.defineVariable? ⟨env.headD 0, name⟩ cell with
  | none => exact ⟨nofun, nofun⟩
  | some t' =>
    constructor
    · rintro ⟨⟩
      rfl
    · rintro ⟨⟩
      rfl

/-! ## §2 Assignments to elements -/

section

variable {eval : Expr → Eval Value} {ref : VariableRef} {index value : Expr} {s' t : Store} {position v : Value}
  {l : ListRef}

/-- An indexed assignment to a mutable variable goes on with its index and its value. -/
theorem assign_element_of_found {cell : Cell} (node : Node) (hfound : s.findVariable? env name = some (ref, cell))
    (hmutable : cell.mutable = true) : assign eval env (.element node name index) value offset s =
      storeElement eval ref index value (.element node name index) offset s := by
  have hreceiver : Eval.receiver env name node.offset offset s = .ok ref s := by
    rw [receiver_of_found hfound, if_pos hmutable]
  exact bind_of_ok hreceiver

/-- Once index and value have been evaluated, the list is the one that the variable holds by then. -/
theorem storeElement_of_values (receiver : Expr) (hindex : eval index s = .ok position s')
    (hvalue : eval value s' = .ok v t) (hlist : t.valueOf ref = .list l) :
    storeElement eval ref index value receiver offset s =
      (if t.heap.contains v l then fail (.cyclicList ref.name offset) else do
        let n ← ofExcept (position.asInteger index.offset)
        let i ← ofExcept (Value.checkedIndex n (t.heap.elements l).length index.offset)
        modify fun s => s.setElement l i v) t := by
  have hheld : valueOf ref t = .ok (.list l) t := by
    rw [← hlist]
    rfl
  unfold storeElement
  rw [bind_of_ok hindex, bind_of_ok hvalue, bind_of_ok hheld]
  rfl

end

/-! ## §3 Output -/

theorem write_eq (text : String) (s : Store) : write text s =
    if (s.sink.write text).1 then .ok () { s with sink := (s.sink.write text).2 }
    else .error (.error (.outputFailed Sink.refusal)) { s with sink := (s.sink.write text).2 } := by
  -- Writing is one update of the sink that says whether everything was taken.
  have hwrite : (modifyGet fun s => ((s.sink.write text).1, { s with sink := (s.sink.write text).2 }) : Eval Bool) s =
      .ok (s.sink.write text).1 { s with sink := (s.sink.write text).2 } := rfl
  unfold write
  rw [bind_of_ok hwrite]
  split <;> rfl

/-! ## §4 Steps that change nothing -/

/-- However it ends, the evaluation leaves the store as it is. -/
def Reads {α : Type} (x : Eval α) : Prop :=
  ∀ s, state (x s) = s

namespace Reads

variable {α : Type}

theorem pure (a : α) : Reads (pure a) :=
  fun _ => rfl

theorem fail (e : RunError) : Reads (fail e : Eval α) :=
  fun _ => rfl

theorem ofExcept (result : Except RunError α) : Reads (ofExcept result) := by
  cases result with
  | ok a => exact pure a
  | error e => exact fail e

theorem get_bind {f : Store → Eval α} (hf : ∀ s, Reads (f s)) : Reads (get >>= f) :=
  fun s => hf s s

theorem resolve (env : Env) (name : String) (offset : Nat) : Reads (resolve env name offset) := by
  refine get_bind fun s => ?_
  cases s.findVariable? env name with
  | none => exact fail _
  | some found => exact pure found

theorem receiver (env : Env) (name : String) (nameOffset offset : Nat) :
    Reads (receiver env name nameOffset offset) := by
  intro s
  cases hfound : s.findVariable? env name with
  | none => rw [receiver_of_not_found hfound, state]
  | some found =>
    rw [receiver_of_found hfound]
    split <;> rfl

theorem valueOf (ref : VariableRef) : Reads (valueOf ref) :=
  get_bind fun s => pure (s.valueOf ref)

end Reads

/-! ## §5 Steps that change no scope -/

/-- However it ends, the evaluation leaves the scopes as they are. -/
def Still {α : Type} (x : Eval α) : Prop :=
  ∀ s, (state (x s)).scopes = s.scopes

theorem Reads.still {α : Type} {x : Eval α} (h : Reads x) : Still x :=
  fun s => congrArg Store.scopes (h s)

namespace Still

variable {α β : Type} {x : Eval α}

theorem pure (a : α) : Still (pure a) :=
  (Reads.pure a).still

theorem fail (e : RunError) : Still (fail e : Eval α) :=
  (Reads.fail e).still

theorem ofExcept (result : Except RunError α) : Still (ofExcept result) :=
  (Reads.ofExcept result).still

theorem bind {f : α → Eval β} (hx : Still x) (hf : ∀ a, Still (f a)) : Still (x >>= f) := by
  intro s
  have hs := hx s
  cases hrun : x s with
  | ok a t =>
    rw [hrun] at hs
    rw [bind_of_ok hrun]
    exact (hf a t).trans hs
  | error e t =>
    rw [hrun] at hs
    rw [bind_of_error hrun]
    exact hs

theorem get_bind {f : Store → Eval α} (hf : ∀ s, Still (f s)) : Still (get >>= f) :=
  fun s => hf s s

theorem resolve (env : Env) (name : String) (offset : Nat) : Still (resolve env name offset) :=
  (Reads.resolve env name offset).still

theorem receiver (env : Env) (name : String) (nameOffset offset : Nat) :
    Still (receiver env name nameOffset offset) :=
  (Reads.receiver env name nameOffset offset).still

theorem valueOf (ref : VariableRef) : Still (valueOf ref) :=
  (Reads.valueOf ref).still

theorem newList (elements : List Value) : Still (newList elements) :=
  fun _ => rfl

theorem setElement (l : ListRef) (i : Nat) (v : Value) : Still (modify fun s : Store => s.setElement l i v) :=
  fun _ => rfl

theorem write (text : String) : Still (write text) := by
  intro s
  rw [write_eq]
  split <;> rfl

theorem builtin (which : Builtin) (arguments : List Value) (offset : Nat) :
    Still (builtin which arguments offset) := by
  unfold Eval.builtin
  split
  · exact get_bind fun s => bind (write _) fun _ => pure Value.nil
  · exact fail _

end Still

end Eval

/-! ## §6 Switches -/

/-- What to fall back to has a property if it had one before, or the statements of the new arm do. -/
theorem forall_mem_or_some {P : List Statement → Prop} {fallback : Option (List Statement)} {body : List Statement}
    (hfallback : ∀ b ∈ fallback, P b) (hbody : P body) : ∀ b ∈ fallback.or (some body), P b := by
  intro b hb
  cases fallback with
  | none => exact Option.some.inj hb ▸ hbody
  | some first => exact hfallback b hb

end BlockLang
