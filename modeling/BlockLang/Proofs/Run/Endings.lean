import BlockLang.Proofs.Run.Fuel

/-!
# How evaluations end

An evaluation that is given more and more fuel either uses up all of it, or ends in one way from some amount on.  Which
amount this is does not matter for what a program does, and two evaluations that need different amounts, since one of
them is nested deeper, are compared by how they end.

## Main definitions

- `Steady`: evaluations of which more fuel changes no outcome.
- `Ends`: how an evaluation ends with enough fuel.
- `EndsAlike`: two evaluations that end alike, or both not at all.

## Main statements

- `ends_bind_iff`: how a sequence ends.
- `EndsAlike.bind`: sequences of evaluations that end alike do so too.
-/

namespace BlockLang

open Stateful

variable {α β : Type} {x y : Nat → Eval α} {f g : α → Nat → Eval β} {s s' t t' : Store} {n : Nat}
  {o : EStateM.Result Stop Store α}

/-! ## §1 More and more fuel -/

/-- More fuel changes no outcome that has been reached. -/
def Steady (x : Nat → Eval α) : Prop :=
  ∀ ⦃n m : Nat⦄, n ≤ m → ∀ s, result (x n s) = .error .outOfFuel ∨ x m s = x n s

/-- With enough fuel, an evaluation ends in this way. -/
def Ends (x : Nat → Eval α) (s : Store) (o : EStateM.Result Stop Store α) : Prop :=
  result o ≠ .error .outOfFuel ∧ ∃ enough, ∀ n, enough ≤ n → x n s = o

namespace Steady

/-- It is enough that the recorded evaluation is continued. -/
theorem of_traced {recorded : Nat → Traced α}
    (hcontinues : ∀ {n m : Nat}, n ≤ m → Continues (recorded n) (recorded m))
    (herases : ∀ n, Erases (recorded n) (x n)) : Steady x := by
  intro n m hle s
  have hn := herases n ⟨s, #[], []⟩
  have hm := herases m ⟨s, #[], []⟩
  rcases (hcontinues hle).agrees ⟨s, #[], []⟩ with ⟨r, hrun, -⟩ | hsame
  · left
    rw [← hn, hrun]
    rfl
  · exact .inr (hm.symm.trans (hsame ▸ hn))

theorem expression (env : Env) (e : Expr) : Steady fun n => Eval.expression n env e :=
  of_traced (fun hle => (Continues.Everywhere.of_le hle).expression env e) fun n => (Erases.everything n).expression env e

theorem statement (env : Env) (st : Statement) : Steady fun n => Eval.statement n env st :=
  of_traced (fun hle => (Continues.Everywhere.of_le hle).statement env st) fun n =>
    (Erases.everything n).statement env st

theorem block (env : Env) (body : List Statement) : Steady fun n => Eval.block (Eval.statement n) env body :=
  of_traced (fun hle => Continues.block (Continues.Everywhere.of_le hle).statement env body) fun n =>
    Erases.block (Erases.everything n).statement env body

theorem shift (hx : Steady x) (k : Nat) : Steady fun n => x (n + k) :=
  fun _ _ hle => hx (Nat.add_le_add_right hle k)

/-- An outcome that has been reached is how the evaluation ends. -/
theorem ends (hx : Steady x) (hfuel : result (x n s) ≠ .error .outOfFuel) : Ends x s (x n s) :=
  ⟨hfuel, n, fun _ hle => (hx hle s).resolve_left hfuel⟩

end Steady

/-- An evaluation ends in one way only. -/
theorem Ends.unique {o' : EStateM.Result Stop Store α} (h : Ends x s o) (h' : Ends x s o') : o = o' := by
  obtain ⟨-, enough, hrun⟩ := h
  obtain ⟨-, enough', hrun'⟩ := h'
  exact (hrun _ (le_max_left enough enough')).symm.trans (hrun' _ (le_max_right enough enough'))

theorem ends_shift_iff (k : Nat) : Ends (fun n => x (n + k)) s o ↔ Ends x s o := by
  refine and_congr_right fun _ => ⟨fun ⟨enough, hrun⟩ => ⟨enough + k, fun n hle => ?_⟩, fun ⟨enough, hrun⟩ =>
    ⟨enough, fun n hle => hrun _ (Nat.le_add_right_of_le hle)⟩⟩
  obtain ⟨d, rfl⟩ := Nat.exists_eq_add_of_le' (Nat.le_of_add_left_le hle)
  exact hrun d (Nat.le_of_add_le_add_right hle)

theorem ends_congr_iff (h : ∀ n, x n s = y n t) : Ends x s o ↔ Ends y t o := by
  unfold Ends
  simp only [h]

/-- A sequence ends with its first part if that fails, and else with the second one. -/
theorem ends_bind_iff (hx : Steady x) {o : EStateM.Result Stop Store β} :
    Ends (fun n => x n >>= fun a => f a n) s o ↔
      (∃ a t, Ends x s (.ok a t) ∧ Ends (f a) t o) ∨ ∃ e t, Ends x s (.error e t) ∧ o = .error e t := by
  have hstop : ∀ {e : Stop} {t : Store}, result (.error e t : EStateM.Result Stop Store α) ≠ .error .outOfFuel ↔
      result (.error e t : EStateM.Result Stop Store β) ≠ .error .outOfFuel := by
    intro e t
    simp [result]
  constructor
  · rintro ⟨hfuel, enough, hrun⟩
    -- The first part has ended when the sequence has, and more fuel does not change it.
    have hends := hx.ends (n := enough) (s := s)
    cases hfirst : x enough s with
    | ok a t =>
      rw [hfirst] at hends
      obtain ⟨-, enough', hlater⟩ := hends (by rintro ⟨⟩)
      refine .inl ⟨a, t, hends (by rintro ⟨⟩), hfuel, max enough enough', fun n hle => ?_⟩
      exact (bind_of_ok (hlater n (le_trans (le_max_right _ _) hle))).symm.trans
        (hrun n (le_trans (le_max_left _ _) hle))
    | error e t =>
      rw [hfirst] at hends
      obtain rfl : .error e t = o := (bind_of_error hfirst).symm.trans (hrun enough le_rfl)
      exact .inr ⟨e, t, hends (hstop.mpr hfuel), rfl⟩
  · rintro (⟨a, t, ⟨-, enough, hrun⟩, hfuel, enough', hrest⟩ | ⟨e, t, ⟨hfuel, enough, hrun⟩, rfl⟩)
    · refine ⟨hfuel, max enough enough', fun n hle => ?_⟩
      exact (bind_of_ok (hrun n (le_trans (le_max_left _ _) hle))).trans (hrest n (le_trans (le_max_right _ _) hle))
    · exact ⟨hstop.mp hfuel, enough, fun n hle => bind_of_error (hrun n hle)⟩

/-- A body that is run in a scope of its own. -/
theorem Eval.inScope_eq (env : Env) (body : Env → Eval α) (s : Store) :
    Eval.inScope env body s = relabel id id Store.closeScope (body (s.scopes.size :: env) s.openScope) := by
  unfold Eval.inScope
  cases body (s.scopes.size :: env) s.openScope <;> rfl

theorem ends_inScope_iff {env : Env} {body : Nat → Env → Eval α}
    (hbody : Steady fun n => body n (s.scopes.size :: env)) :
    Ends (fun n => Eval.inScope env (body n)) s o ↔
      ∃ o', Ends (fun n => body n (s.scopes.size :: env)) s.openScope o' ∧ o = relabel id id Store.closeScope o' := by
  have hresult : ∀ o' : EStateM.Result Stop Store α, result (relabel id id Store.closeScope o') = result o' := by
    intro o'
    cases o' <;> rfl
  constructor
  · rintro ⟨hfuel, enough, hrun⟩
    have hlast := (Eval.inScope_eq env (body enough) s).symm.trans (hrun enough le_rfl)
    refine ⟨_, hbody.ends (n := enough) ?_, hlast.symm⟩
    rwa [← hresult, hlast]
  · rintro ⟨o', ⟨hfuel, enough, hrun⟩, rfl⟩
    refine ⟨?_, enough, fun n hle => ?_⟩
    · rwa [hresult]
    · have hbody := hrun n hle
      exact (Eval.inScope_eq env (body n) s).trans (congrArg _ hbody)

/-! ## §2 Ending alike -/

/-- If one evaluation ends, the other one does with the same value or error, in a store that is related. -/
def Follows (R : Store → Store → Prop) (x : Nat → Eval α) (s : Store) (y : Nat → Eval α) (s' : Store) : Prop :=
  ∀ o, Ends x s o → ∃ o', Ends y s' o' ∧ Alongside R o o'

namespace Follows

variable {R Q : Store → Store → Prop}

theorem mono (h : Follows R x s y s') (hQ : ∀ t t', R t t' → Q t t') : Follows Q x s y s' := by
  intro o ho
  obtain ⟨o', ho', halong⟩ := h o ho
  exact ⟨o', ho', halong.mono hQ⟩

theorem of_alongside (hy : Steady y) (h : ∀ n, Alongside R (x n s) (y n s')) : Follows R x s y s' := by
  rintro o ⟨hfuel, enough, hrun⟩
  have halong := h enough
  rw [hrun enough le_rfl] at halong
  exact ⟨_, hy.ends (halong.result ▸ hfuel), halong⟩

theorem bind (hx : Steady x) (hy : Steady y) (h : Follows R x s y s') (hQ : ∀ t t', R t t' → Q t t')
    (hf : ∀ a t t', R t t' → Follows Q (f a) t (g a) t') :
    Follows Q (fun n => x n >>= fun a => f a n) s (fun n => y n >>= fun a => g a n) s' := by
  intro o ho
  rcases (ends_bind_iff hx).mp ho with ⟨a, t, hfirst, hrest⟩ | ⟨e, t, hfirst, rfl⟩
  · obtain ⟨_, hfirst', halong⟩ := h _ hfirst
    cases halong with
    | @ok _ t' _ hR =>
      obtain ⟨o', hrest', halong⟩ := hf a t t' hR o hrest
      exact ⟨o', (ends_bind_iff hy).mpr (.inl ⟨a, t', hfirst', hrest'⟩), halong⟩
  · obtain ⟨_, hfirst', halong⟩ := h _ hfirst
    cases halong with
    | @error _ t' _ hR =>
      exact ⟨.error e t', (ends_bind_iff hy).mpr (.inr ⟨e, t', hfirst', rfl⟩), .error e (hQ t t' hR)⟩

end Follows

/-- However one of the evaluations ends, so does the other one, in a store that is related. -/
structure EndsAlike (R : Store → Store → Prop) (x : Nat → Eval α) (s : Store) (y : Nat → Eval α) (s' : Store) :
    Prop where
  forth : Follows R x s y s'
  back : Follows (flip R) y s' x s

namespace EndsAlike

variable {R Q : Store → Store → Prop}

theorem mono (h : EndsAlike R x s y s') (hQ : ∀ t t', R t t' → Q t t') : EndsAlike Q x s y s' :=
  ⟨h.forth.mono hQ, h.back.mono fun t' t => hQ t t'⟩

/-- Evaluations that do the same with the same fuel. -/
theorem of_alongside (hx : Steady x) (hy : Steady y) (h : ∀ n, Alongside R (x n s) (y n s')) :
    EndsAlike R x s y s' :=
  ⟨.of_alongside hy h, .of_alongside hx fun n => (h n).symm⟩

/-- Evaluations that end in the same ways as others. -/
theorem congr {x' y' : Nat → Eval α} (h : EndsAlike R x s y s') (hx : ∀ o, Ends x' t o ↔ Ends x s o)
    (hy : ∀ o, Ends y' t' o ↔ Ends y s' o) : EndsAlike R x' t y' t' where
  forth o ho := by
    obtain ⟨o', ho', halong⟩ := h.forth o ((hx o).mp ho)
    exact ⟨o', (hy o').mpr ho', halong⟩
  back o' ho' := by
    obtain ⟨o, ho, halong⟩ := h.back o' ((hy o').mp ho')
    exact ⟨o, (hx o).mpr ho, halong⟩

/-- The second evaluation may be given more fuel. -/
theorem shift (h : EndsAlike R x s y s') (k : Nat) : EndsAlike R x s (fun n => y (n + k)) s' :=
  h.congr (fun _ => Iff.rfl) fun _ => ends_shift_iff k

/-- A sequence ends alike if its parts do. -/
theorem bind (hx : Steady x) (hy : Steady y) (h : EndsAlike R x s y s') (hQ : ∀ t t', R t t' → Q t t')
    (hf : ∀ a t t', R t t' → EndsAlike Q (f a) t (g a) t') :
    EndsAlike Q (fun n => x n >>= fun a => f a n) s (fun n => y n >>= fun a => g a n) s' :=
  ⟨h.forth.bind hx hy hQ fun a t t' hR => (hf a t t' hR).forth,
    h.back.bind hy hx (fun t' t => hQ t t') fun a t' t hR => (hf a t t' hR).back⟩

/-- The second evaluation may be run in a scope of its own. -/
theorem inScope {env : Env} {body : Nat → Env → Eval α} (hbody : Steady fun n => body n (s'.scopes.size :: env))
    (h : EndsAlike R x s (fun n => body n (s'.scopes.size :: env)) s'.openScope)
    (hQ : ∀ t t', R t t' → Q t t'.closeScope) : EndsAlike Q x s (fun n => Eval.inScope env (body n)) s' where
  forth o ho := by
    obtain ⟨o', ho', halong⟩ := h.forth o ho
    exact ⟨_, (ends_inScope_iff hbody).mpr ⟨o', ho', rfl⟩, halong.change hQ⟩
  back o ho := by
    obtain ⟨o', ho', rfl⟩ := (ends_inScope_iff hbody).mp ho
    obtain ⟨o, ho, halong⟩ := h.back o' ho'
    exact ⟨o, ho, (halong.symm.change hQ).symm⟩

end EndsAlike

end BlockLang
