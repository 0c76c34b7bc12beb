import BlockLang.Tree

/-!
# Sequences of stateful steps

Readers, checkers and evaluations are all functions on a state that either yield a value or fail.  What a sequence
of two of them does is told by what its parts do.
-/

namespace BlockLang.Stateful

variable {ε σ α β : Type} {s t u : σ}

/-- A sequence succeeds exactly if both of its parts do. -/
theorem bind_eq_ok {x : EStateM ε σ α} {f : α → EStateM ε σ β} {b : β} :
    (x >>= f) s = .ok b u ↔ ∃ a t, x s = .ok a t ∧ f a t = .ok b u := by
  change EStateM.bind x f s = _ ↔ _
  unfold EStateM.bind
  cases x s with
  | ok a t => simp [and_assoc]
  | error e t => simp

/-- A sequence fails exactly if its first part fails, or the second one after it. -/
theorem bind_eq_error {x : EStateM ε σ α} {f : α → EStateM ε σ β} {e : ε} :
    (x >>= f) s = .error e u ↔ x s = .error e u ∨ ∃ a t, x s = .ok a t ∧ f a t = .error e u := by
  change EStateM.bind x f s = _ ↔ _
  unfold EStateM.bind
  cases x s with
  | ok a t => simp [and_assoc]
  | error e t => simp

/-- After a part that succeeds the sequence goes on with the rest. -/
theorem bind_of_ok {x : EStateM ε σ α} {f : α → EStateM ε σ β} {a : α} (h : x s = .ok a t) :
    (x >>= f) s = f a t := by
  change EStateM.bind x f s = _
  unfold EStateM.bind
  rw [h]

/-- A part that fails ends the sequence. -/
theorem bind_of_error {x : EStateM ε σ α} {f : α → EStateM ε σ β} {e : ε} (h : x s = .error e t) :
    (x >>= f) s = .error e t := by
  change EStateM.bind x f s = _
  unfold EStateM.bind
  rw [h]

/-- A loop that fails has gone through some elements and fails at the next one. -/
theorem forM_eq_error {f : α → EStateM ε σ PUnit} {xs : List α} {e : ε} (h : xs.forM f s = .error e u) :
    ∃ before x rest t, xs = before ++ x :: rest ∧ before.forM f s = .ok ⟨⟩ t ∧ f x t = .error e u := by
  induction xs generalizing s with
  | nil => cases h
  | cons x rest ih =>
    obtain hfirst | ⟨_, t, hfirst, hrest⟩ := bind_eq_error.mp h
    · exact ⟨[], x, rest, s, rfl, rfl, hfirst⟩
    · obtain ⟨before, y, after, t', rfl, hbefore, hy⟩ := ih hrest
      exact ⟨x :: before, y, after, t', rfl, (bind_of_ok hfirst).trans hbefore, hy⟩

/-- First parts with the same outcome can be exchanged. -/
theorem bind_congr {x y : EStateM ε σ α} {f : α → EStateM ε σ β} (h : x s = y t) : (x >>= f) s = (y >>= f) t := by
  change EStateM.bind x f s = EStateM.bind y f t
  unfold EStateM.bind
  rw [h]

/-- Reading the state changes nothing. -/
theorem get_bind {f : σ → EStateM ε σ α} : (get >>= f) s = f s s := rfl

theorem pure_eq_ok {a b : α} : (pure a : EStateM ε σ α) s = .ok b t ↔ a = b ∧ s = t := by
  constructor
  · intro h
    cases h
    exact ⟨rfl, rfl⟩
  · rintro ⟨rfl, rfl⟩
    rfl

theorem throw_ne_ok {e : ε} {a : α} : (throw e : EStateM ε σ α) s ≠ .ok a t := by
  intro h
  cases h

/-! ## Outcomes -/

/-- The state in which a step ends, whether it succeeds or fails. -/
def state : EStateM.Result ε σ α → σ
  | .ok _ s | .error _ s => s

/-- The same outcome with another value or error and in another state. -/
def relabel {δ τ : Type} (onValue : α → β) (onError : ε → δ) (onState : σ → τ) :
    EStateM.Result ε σ α → EStateM.Result δ τ β
  | .ok a s => .ok (onValue a) (onState s)
  | .error e s => .error (onError e) (onState s)

@[simp] theorem state_relabel {δ τ : Type} (onValue : α → β) (onError : ε → δ) (onState : σ → τ)
    (result : EStateM.Result ε σ α) : state (relabel onValue onError onState result) = onState (state result) := by
  cases result <;> rfl

/-- The value or the error of an outcome. -/
def result : EStateM.Result ε σ α → Except ε α
  | .ok a _ => .ok a
  | .error e _ => .error e

/-- An outcome with a value is that value in the state that has been reached. -/
theorem eq_ok_of_result {outcome : EStateM.Result ε σ α} {a : α} (h : result outcome = .ok a) :
    outcome = .ok a (state outcome) := by
  cases outcome with
  | ok b s =>
    cases h
    rfl
  | error e s => cases h

@[simp] theorem result_relabel {δ τ : Type} (onValue : α → β) (onError : ε → δ) (onState : σ → τ)
    (outcome : EStateM.Result ε σ α) :
    result (relabel onValue onError onState outcome) = ((result outcome).map onValue).mapError onError := by
  cases outcome <;> rfl

/-! ## Steps that do the same in other words

Two steps whose states, values and errors are translated into each other are compared like the functions that they are
built from. -/

/-- From the translation of every state, the second step does what the first one does from the state, translated. -/
def Translates {δ τ : Type} (onError : ε → δ) (onState : σ → τ) (onValue : α → β) (x : EStateM ε σ α)
    (y : EStateM δ τ β) : Prop :=
  ∀ s, y (onState s) = relabel onValue onError onState (x s)

namespace Translates

variable {δ τ α' β' : Type} {onError : ε → δ} {onState : σ → τ} {onValue : α → α'} {x : EStateM ε σ α}
  {y : EStateM δ τ α'}

theorem pure (a : α) : Translates onError onState onValue (pure a) (pure (onValue a)) :=
  fun _ => rfl

theorem throw (e : ε) : Translates onError onState onValue (throw e) (throw (onError e)) :=
  fun _ => rfl

theorem bind {onResult : β → β'} {f : α → EStateM ε σ β} {g : α' → EStateM δ τ β'}
    (hx : Translates onError onState onValue x y)
    (hf : ∀ a, Translates onError onState onResult (f a) (g (onValue a))) :
    Translates onError onState onResult (x >>= f) (y >>= g) := by
  intro s
  have hs := hx s
  -- Where the first part fails, the second one is not reached on either side.
  cases hrun : x s with
  | ok a t =>
    rw [hrun] at hs
    rw [bind_of_ok hrun, bind_of_ok hs]
    exact hf a t
  | error e t =>
    rw [hrun] at hs
    rw [bind_of_error hrun, bind_of_error hs]
    rfl

theorem get_bind {f : σ → EStateM ε σ α} {g : τ → EStateM δ τ α'}
    (hf : ∀ s, Translates onError onState onValue (f s) (g (onState s))) :
    Translates onError onState onValue (get >>= f) (get >>= g) :=
  fun s => hf s s

theorem set (s : σ) : Translates onError onState id (set s) (set (onState s)) :=
  fun _ => rfl

theorem modify {change : σ → σ} {change' : τ → τ} (h : ∀ s, change' (onState s) = onState (change s)) :
    Translates onError onState id (modify change) (modify change') :=
  fun s => congrArg (EStateM.Result.ok PUnit.unit) (h s)

theorem ite {c : Prop} [Decidable c] {x' : EStateM ε σ α} {y' : EStateM δ τ α'}
    (hx : Translates onError onState onValue x y) (hx' : Translates onError onState onValue x' y') :
    Translates onError onState onValue (if c then x else x') (if c then y else y') := by
  split
  · exact hx
  · exact hx'

theorem discard (hx : Translates onError onState onValue x y) :
    Translates onError onState id (discard x) (discard y) :=
  bind hx fun _ => pure ()

end Translates

/-! ## Confined steps

What a step can see of the state is what two related states have in common; what it leaves alone is a view of the
state that is the same before and after. -/

/-- Two outcomes with the same value or the same error, in related states. -/
inductive Alongside (R : σ → σ → Prop) : EStateM.Result ε σ α → EStateM.Result ε σ α → Prop
  | ok {s t : σ} (a : α) (h : R s t) : Alongside R (.ok a s) (.ok a t)
  | error {s t : σ} (e : ε) (h : R s t) : Alongside R (.error e s) (.error e t)

namespace Alongside

variable {R Q : σ → σ → Prop} {o o' : EStateM.Result ε σ α}

theorem result (h : Alongside R o o') : result o = Stateful.result o' := by
  cases h <;> rfl

theorem state (h : Alongside R o o') : R (state o) (Stateful.state o') := by
  cases h <;> assumption

theorem mono (h : Alongside R o o') (hQ : ∀ s t, R s t → Q s t) : Alongside Q o o' := by
  cases h with
  | ok a h => exact .ok a (hQ _ _ h)
  | error e h => exact .error e (hQ _ _ h)

theorem symm (h : Alongside R o o') : Alongside (flip R) o' o := by
  cases h with
  | ok a h => exact .ok a h
  | error e h => exact .error e h

/-- The second state may be changed behind both. -/
theorem change {onState : σ → σ} (h : Alongside R o o') (hQ : ∀ s t, R s t → Q s (onState t)) :
    Alongside Q o (relabel id id onState o') := by
  cases h with
  | ok a h => exact .ok a (hQ _ _ h)
  | error e h => exact .error e (hQ _ _ h)

theorem bind {x y : EStateM ε σ α} {f g : α → EStateM ε σ β} {s t : σ} (h : Alongside R (x s) (y t))
    (hf : ∀ a s t, R s t → Alongside R (f a s) (g a t)) : Alongside R ((x >>= f) s) ((y >>= g) t) := by
  generalize hrun : x s = o at h
  generalize hrun' : y t = o' at h
  cases h with
  | ok a h =>
    rw [bind_of_ok hrun, bind_of_ok hrun']
    exact hf a _ _ h
  | error e h =>
    rw [bind_of_error hrun, bind_of_error hrun']
    exact .error e h

end Alongside

/-- However it ends, the step keeps the view of the state; from related states it reaches related states with the same
outcome. -/
structure Confined {γ : Type} (R : σ → σ → Prop) (view : σ → γ) (x : EStateM ε σ α) : Prop where
  keeps : ∀ s, view (state (x s)) = view s
  agrees : ∀ s t, R s t → Alongside R (x s) (x t)

namespace Confined

variable {γ δ : Type} {R : σ → σ → Prop} {view : σ → γ} {x y : EStateM ε σ α}

theorem pure (a : α) : Confined R view (pure a : EStateM ε σ α) :=
  ⟨fun _ => rfl, fun _ _ h => .ok a h⟩

theorem throw (e : ε) : Confined R view (throw e : EStateM ε σ α) :=
  ⟨fun _ => rfl, fun _ _ h => .error e h⟩

theorem bind {f : α → EStateM ε σ β} (hx : Confined R view x) (hf : ∀ a, Confined R view (f a)) :
    Confined R view (x >>= f) := by
  constructor
  · intro s
    have hs := hx.keeps s
    cases hrun : x s with
    | ok a t =>
      rw [hrun] at hs
      rw [bind_of_ok hrun, (hf a).keeps t]
      exact hs
    | error e t =>
      rw [hrun] at hs
      rw [bind_of_error hrun]
      exact hs
  · exact fun s t h => (hx.agrees s t h).bind fun a => (hf a).agrees

/-- What is read from the state may depend only on what related states have in common. -/
theorem get_bind {f : σ → EStateM ε σ α} (hf : ∀ s, Confined R view (f s)) (heq : ∀ s t, R s t → f s = f t) :
    Confined R view (get >>= f) := by
  refine ⟨fun s => (hf s).keeps s, fun s t h => ?_⟩
  rw [Stateful.get_bind, Stateful.get_bind, heq s t h]
  exact (hf t).agrees s t h

theorem ite {c : Prop} [Decidable c] (hx : Confined R view x) (hy : Confined R view y) :
    Confined R view (if c then x else y) := by
  split
  · exact hx
  · exact hy

theorem discard (hx : Confined R view x) : Confined R view (discard x) :=
  bind hx fun _ => pure ()

/-- A step that keeps a view keeps what can be seen of the view. -/
theorem coarsen (hx : Confined R view x) (f : γ → δ) : Confined R (fun s => f (view s)) x :=
  ⟨fun s => congrArg f (hx.keeps s), hx.agrees⟩

end Confined

end BlockLang.Stateful
