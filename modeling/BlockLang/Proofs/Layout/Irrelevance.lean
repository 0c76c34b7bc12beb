import BlockLang.Proofs.Layout.Checking
import BlockLang.Proofs.Layout.Reading
import BlockLang.Proofs.Layout.Running
import Mathlib.Control.Monad.Basic

/-!
# Layout is irrelevant

Two source texts that have the same tokens apart from offsets differ only in what stands between their tokens.  No
stage tells them apart but by the offsets in trees and errors.

## Main definitions

- `SameOutcome`: two outcomes of a stage that agree up to offsets.
- `SameUpToLayout`: what two such source texts have in common.

## Main statement

- `layout_irrelevant`: source texts whose tokens agree in kinds and texts are the same up to layout.
-/

namespace BlockLang

open Stateful

/-- Both outcomes are values that agree as far as the function tells, or both are failures that agree up to offsets. -/
inductive SameOutcome {α β : Type} (u : α → β) : Except Failure α → Except Failure α → Prop
  | ok {a b : α} (h : u a = u b) : SameOutcome u (.ok a) (.ok b)
  | error {e f : Failure} (h : e.unplaced = f.unplaced) : SameOutcome u (.error e) (.error f)

/-- Both runs end with the same value or with failures that agree up to offsets, or neither ends; both have created the
same lists and printed the same. -/
def SameRun (r r' : Except Failure Value × Store) : Prop :=
  SameOutcome id r.1 r'.1 ∧ r.2.heap = r'.2.heap ∧ r.2.sink = r'.2.sink

/-- What source texts have in common that differ in their layout alone. -/
structure SameUpToLayout (a b : String) : Prop where
  /-- Both are read as trees that agree up to offsets, with the same node ids, or refused with errors that do. -/
  read : SameOutcome Program.unplaced (readProgram a) (readProgram b)
  /-- A checker, fresh or not, accepts both trees and reaches one state, or refuses both with errors that agree up to
  offsets. -/
  analyzed : ∀ {p q}, readProgram a = .ok p → readProgram b = .ok q → ∀ s,
    relabel id TypingError.unplaced id (Checker.program p s) = relabel id TypingError.unplaced id (Checker.program q s)
  /-- Both are accepted with one side table, or refused with errors that agree up to offsets. -/
  checked : SameOutcome (fun r => (r.1.unplaced, r.2)) (checkSource a) (checkSource b)
  /-- Both have one Java text, or none. -/
  compiled : SameOutcome id (compileToJava a) (compileToJava b)
  /-- With any fuel and any limit of the output, both trees are run alike. -/
  run : ∀ {p q}, readProgram a = .ok p → readProgram b = .ok q → ∀ fuel limit,
    SameRun (runProgram fuel p (.initial limit)) (runProgram fuel q (.initial limit))
  /-- With any fuel, both are executed alike from the text to the result. -/
  executed : ∀ fuel, SameRun (execute fuel a) (execute fuel b)

/-! ## §1 Stages in a row -/

theorem Failure.ofStop_unplaced (stop : Stop) : (ofStop stop).unplaced = ofStop stop.unplaced := by
  cases stop <;> rfl

namespace SameOutcome

variable {α β γ δ ε : Type} {u : α → β} {v : γ → δ}

theorem bind {x y : Except Failure α} {f g : α → Except Failure γ} (h : SameOutcome u x y)
    (hnext : ∀ a b, u a = u b → SameOutcome v (f a) (g b)) : SameOutcome v (x >>= f) (y >>= g) := by
  cases h with
  | ok h => exact hnext _ _ h
  | error h => exact .error h

/-- Outcomes of one stage that agree once its own offsets are taken away. -/
theorem of_stage (clear : ε → ε) {inject : ε → Failure} (hinject : ∀ e, (inject e).unplaced = inject (clear e))
    {x y : Except ε α} (h : (x.map u).mapError clear = (y.map u).mapError clear) :
    SameOutcome u (x.mapError inject) (y.mapError inject) := by
  cases x with
  | ok a =>
    cases y with
    | ok b => exact .ok (Except.ok.inj h)
    | error f => cases h
  | error e =>
    cases y with
    | ok b => cases h
    | error f =>
      have hclear : clear e = clear f := Except.error.inj h
      refine .error ?_
      rw [hinject, hinject, hclear]

end SameOutcome

/-- Stores that agree up to offsets have the same lists and the same output. -/
theorem SameRun.of_unplaced_eq {x y : Except Failure Value} {s t : Store} (h : SameOutcome id x y)
    (hstore : s.unplaced = t.unplaced) : SameRun (x, s) (y, t) := by
  have hheap : s.unplaced.heap = t.unplaced.heap := by rw [hstore]
  have hsink : s.unplaced.sink = t.unplaced.sink := by rw [hstore]
  exact ⟨h, hheap, hsink⟩

/-! ## §2 Trees that agree up to offsets -/

section

variable {p q : Program} (h : p.unplaced = q.unplaced)

include h

theorem analyzed_of_unplaced_eq (s : CheckerState) :
    relabel id TypingError.unplaced id (Checker.program p s) =
      relabel id TypingError.unplaced id (Checker.program q s) := by
  have hp := Checker.Unplaces.program p s
  have hq := Checker.Unplaces.program q s
  rw [h] at hp
  exact hp.symm.trans hq

theorem checked_of_unplaced_eq : SameOutcome id (checkProgram p) (checkProgram q) := by
  refine .of_stage TypingError.unplaced (fun _ => rfl) ?_
  rw [Except.map_id, id, id, ← check_unplaced, ← check_unplaced, h]

theorem java_of_unplaced_eq (t : SideTable) : Java.program t p = Java.program t q := by
  rw [← Java.program_unplaced, h, Java.program_unplaced]

theorem run_of_unplaced_eq (fuel : Nat) (limit : Option Nat) :
    SameRun (runProgram fuel p (.initial limit)) (runProgram fuel q (.initial limit)) := by
  have hp := Eval.program_unplaced fuel p (.initial limit)
  have hq := Eval.program_unplaced fuel q (.initial limit)
  rw [h] at hp
  -- Without offsets both runs are the run of one tree.
  have hsame := hp.symm.trans hq
  unfold runProgram EStateM.run
  cases hrun : Eval.program fuel p (.initial limit) with
  | ok v s =>
    cases hrun' : Eval.program fuel q (.initial limit) with
    | ok w t =>
      rw [hrun, hrun'] at hsame
      obtain ⟨hvalue, hstore⟩ := EStateM.Result.ok.inj hsame
      exact .of_unplaced_eq (.ok hvalue) hstore
    | error e t =>
      rw [hrun, hrun'] at hsame
      cases hsame
  | error e s =>
    cases hrun' : Eval.program fuel q (.initial limit) with
    | ok w t =>
      rw [hrun, hrun'] at hsame
      cases hsame
    | error f t =>
      rw [hrun, hrun'] at hsame
      obtain ⟨hstop, hstore⟩ := EStateM.Result.error.inj hsame
      refine .of_unplaced_eq (.error ?_) hstore
      rw [Failure.ofStop_unplaced, Failure.ofStop_unplaced, hstop]

end

/-! ## §3 Source texts -/

/-- Source texts that are read as trees which agree up to offsets, or refused alike, are the same up to layout. -/
theorem SameUpToLayout.of_read {a b : String}
    (h : SameOutcome Program.unplaced (readProgram a) (readProgram b)) : SameUpToLayout a b := by
  have htree {p q : Program} (hp : readProgram a = .ok p) (hq : readProgram b = .ok q) : p.unplaced = q.unplaced := by
    rw [hp, hq] at h
    cases h with
    | ok h => exact h
  have hchecked : SameOutcome (fun r => (r.1.unplaced, r.2)) (checkSource a) (checkSource b) :=
    h.bind fun p q hpq => (checked_of_unplaced_eq hpq).bind fun t t' ht => .ok (Prod.ext hpq ht)
  refine ⟨h, fun hp hq => analyzed_of_unplaced_eq (htree hp hq), hchecked, ?_,
    fun hp hq => run_of_unplaced_eq (htree hp hq), fun fuel => ?_⟩
  · refine hchecked.bind fun r r' hr => .ok ?_
    obtain ⟨hpq, ht⟩ : r.1.unplaced = r'.1.unplaced ∧ r.2 = r'.2 := Prod.ext_iff.mp hr
    rw [ht]
    exact java_of_unplaced_eq hpq r'.2
  · unfold execute
    generalize checkSource a = x at hchecked ⊢
    generalize checkSource b = y at hchecked ⊢
    cases hchecked with
    | ok hr => exact run_of_unplaced_eq (Prod.ext_iff.mp hr).1 fuel none
    | error he => exact ⟨.error he, rfl, rfl⟩

/-- Source texts whose tokens agree in kinds and texts are the same up to layout. -/
theorem layout_irrelevant {a b : String} {ts us : List Token} (ha : tokenize a = .ok ts) (hb : tokenize b = .ok us)
    (h : ts.map (fun t => (t.kind, t.text)) = us.map fun t => (t.kind, t.text)) : SameUpToLayout a b := by
  have hunplaced : ts.map Token.unplaced = us.map Token.unplaced := by
    have hplaced := congrArg (List.map fun form => Token.mk form.1 form.2 0) h
    rw [List.map_map, List.map_map] at hplaced
    exact hplaced
  apply SameUpToLayout.of_read
  unfold readProgram readPhrase
  rw [ha, hb]
  exact .of_stage GrammarError.unplaced (fun _ => rfl) (parse_unplaced hunplaced)

/-- The tokens of a program that divides by zero, at given offsets. -/
def quotientTokens (offsets : List Nat) : List Token :=
  List.zipWith (fun form offset => ⟨form.1, form.2, offset⟩)
    [(.identifier, "FUN"), (.identifier, "main"), (.operator, "("), (.operator, ")"), (.identifier, "DO"),
      (.identifier, "print"), (.operator, "("), (.integer, "1"), (.operator, "/"), (.integer, "0"), (.operator, ")"),
      (.operator, ";"), (.identifier, "END")]
    offsets

/-- In one line or in three, that program is the same up to layout; the place of the division is not. -/
theorem layout_irrelevant_three_lines :
    tokenize "FUN main() DO print(1 / 0); END" =
        .ok (quotientTokens [0, 4, 8, 9, 11, 14, 19, 20, 22, 24, 25, 26, 28]) ∧
      tokenize "FUN main() DO\n  print(1/0);\nEND\n" =
        .ok (quotientTokens [0, 4, 8, 9, 11, 16, 21, 22, 23, 24, 25, 26, 28]) ∧
      SameUpToLayout "FUN main() DO print(1 / 0); END" "FUN main() DO\n  print(1/0);\nEND\n" ∧
      (execute 8 "FUN main() DO print(1 / 0); END").1 = .error (.run (.divisionByZero 20)) ∧
      (execute 8 "FUN main() DO\n  print(1/0);\nEND\n").1 = .error (.run (.divisionByZero 22)) := by
  have hline : tokenize "FUN main() DO print(1 / 0); END" =
      .ok (quotientTokens [0, 4, 8, 9, 11, 14, 19, 20, 22, 24, 25, 26, 28]) := by
    decide +kernel
  have hlines : tokenize "FUN main() DO\n  print(1/0);\nEND\n" =
      .ok (quotientTokens [0, 4, 8, 9, 11, 16, 21, 22, 23, 24, 25, 26, 28]) := by
    decide +kernel
  exact ⟨hline, hlines, layout_irrelevant hline hlines rfl, by decide +kernel, by decide +kernel⟩

end BlockLang
