import BlockLang.Proofs.Grammar.Soundness
import BlockLang.Proofs.Run.Fuel
import BlockLang.Proofs.Run.ProgramSoundness
import BlockLang.Proofs.Typing.ProgramSoundness

/-!
# Runs of checked programs

What checking a program guarantees about its runs: types are kept up to `Nil`, and names stand at runtime for what
they stand for in the text.  Both hold at every moment of every run, also of one that fails or is still going: a run
that is still going is one whose fuel, however much there was, is used up (`Program.record_suffix`).

## Main statements

- `checked_run_typed`: values and variables have their static types.
- `checked_run_resolved`: names are found, and they are what the table says they are.
-/

namespace BlockLang

variable {tokens : List Token} {p : Program} {t : SideTable}

/-- The rules of the checker promise that a run of a program leads from sound states to sound states. -/
theorem program_safe_of_check (hparse : parse tokens = .ok p) (hcheck : check builtins p = .ok t) (fuel : Nat)
    (limit : Option Nat) : match Traced.program fuel p (.initial limit) with
    | .ok v r => (∃ funs w, Sound t p funs w r) ∧ v.Conforms .integer
    | .error stop r => (∃ funs w, Sound t p funs w r) ∧ Permitted t p r.moments stop :=
  program_safe (programTyped_of_check hcheck (nodup_ids_of_parse hparse)) limit

/-- The record of a checked program is sound at its end. -/
theorem sound_record (hparse : parse tokens = .ok p) (hcheck : check builtins p = .ok t) (fuel : Nat)
    (limit : Option Nat) : ∃ funs w, Sound t p funs w (p.record fuel limit) := by
  have hsafe := program_safe_of_check hparse hcheck fuel limit
  unfold Program.record
  -- An outcome and a stop are sound in the same way.
  cases hrun : Traced.program fuel p (.initial limit) with
  | ok v r =>
    rw [hrun] at hsafe
    exact hsafe.1
  | error stop r =>
    rw [hrun] at hsafe
    exact hsafe.1

/-- A run that stops does so as it may, and a run that ends yields an integer or `Nil`. -/
theorem outcome_of_check (hparse : parse tokens = .ok p) (hcheck : check builtins p = .ok t) (fuel : Nat)
    (limit : Option Nat) : match Eval.program fuel p (.initial limit) with
    | .ok v _ => v.Conforms .integer
    | .error stop _ => Permitted t p (p.record fuel limit).moments stop := by
  have hsafe := program_safe_of_check hparse hcheck fuel limit
  -- The run is the recorded run without its record, so their outcomes are the same.
  rw [← Traced.forget_program]
  unfold Program.record
  cases hrun : Traced.program fuel p (.initial limit) with
  | ok v r =>
    rw [hrun] at hsafe
    exact hsafe.2
  | error stop r =>
    rw [hrun] at hsafe
    exact hsafe.2

/-! ## §1 Types -/

/-- **Type soundness up to `Nil`.** At every moment of every run of a checked program, all variables conform to their
entries, and every expression that has been evaluated has a value of its type.  A run that ends yields an integer or
`Nil`; one that fails for reasons of types fails because of a `Nil`. -/
theorem checked_run_typed (hparse : parse tokens = .ok p) (hcheck : check builtins p = .ok t) (fuel : Nat)
    (limit : Option Nat) :
    Recorder.forget (Traced.program fuel p (.initial limit)) = Eval.program fuel p (.initial limit) ∧
      (∀ m ∈ (p.record fuel limit).moments, m.Typed t p) ∧
      CellsConform t (p.record fuel limit).store (p.record fuel limit).origins ∧
      (∀ v s, Eval.program fuel p (.initial limit) = .ok v s → v = .nil ∨ ∃ n, v = .integer n) ∧
      (∀ fault offset s, Eval.program fuel p (.initial limit) = .error (.error (.typeFault fault offset)) s →
        fault.ReportsNil) := by
  obtain ⟨funs, w, hsound⟩ := sound_record hparse hcheck fuel limit
  have houtcome := outcome_of_check hparse hcheck fuel limit
  refine ⟨Traced.forget_program fuel p limit, hsound.typed, hsound.cellsConform, fun v s heq => ?_,
    fun fault offset s heq => ?_⟩
  · rw [heq] at houtcome
    exact houtcome.integer
  · rw [heq] at houtcome
    exact houtcome

/-- The tokens of a program that gives a list a second name, changes it through the one and reads it through the
other: `LIST a: Integer = [1]; FUN main(): Integer DO LET b = a; b[0] = 2; RETURN a[0]; END`. -/
def aliasTokens : List Token :=
  [⟨.identifier, "LIST", 0⟩, ⟨.identifier, "a", 5⟩, ⟨.operator, ":", 6⟩, ⟨.identifier, "Integer", 8⟩,
    ⟨.operator, "=", 16⟩, ⟨.operator, "[", 18⟩, ⟨.integer, "1", 19⟩, ⟨.operator, "]", 20⟩, ⟨.operator, ";", 21⟩,
    ⟨.identifier, "FUN", 23⟩, ⟨.identifier, "main", 27⟩, ⟨.operator, "(", 31⟩, ⟨.operator, ")", 32⟩,
    ⟨.operator, ":", 33⟩, ⟨.identifier, "Integer", 35⟩, ⟨.identifier, "DO", 43⟩, ⟨.identifier, "LET", 46⟩,
    ⟨.identifier, "b", 50⟩, ⟨.operator, "=", 52⟩, ⟨.identifier, "a", 54⟩, ⟨.operator, ";", 55⟩, ⟨.identifier, "b", 57⟩,
    ⟨.operator, "[", 58⟩, ⟨.integer, "0", 59⟩, ⟨.operator, "]", 60⟩, ⟨.operator, "=", 62⟩, ⟨.integer, "2", 64⟩,
    ⟨.operator, ";", 65⟩, ⟨.identifier, "RETURN", 67⟩, ⟨.identifier, "a", 74⟩, ⟨.operator, "[", 75⟩,
    ⟨.integer, "0", 76⟩, ⟨.operator, "]", 77⟩, ⟨.operator, ";", 78⟩, ⟨.identifier, "END", 80⟩]

/-- The tree of that program. -/
def aliasProgram : Program where
  globals := [⟨⟨0, 0⟩, "a", true, some "Integer", some (.list ⟨1, 18⟩ [.literal ⟨2, 19⟩ (.integer 1)])⟩]
  functions := [⟨⟨3, 23⟩, "main", [], some "Integer",
    [.declaration ⟨4, 46⟩ "b" none (some (.variable ⟨5, 54⟩ "a")),
      .assignment 57 (.element ⟨7, 57⟩ "b" (.literal ⟨6, 59⟩ (.integer 0))) (.literal ⟨8, 64⟩ (.integer 2)),
      .returning 67 (.element ⟨10, 74⟩ "a" (.literal ⟨9, 76⟩ (.integer 0)))]⟩]

/-- What checking finds out about it. -/
def aliasTable : SideTable where
  types := [(10, .integer), (9, .integer), (8, .integer), (7, .integer), (6, .integer), (5, .any), (1, .integer),
    (2, .integer)]
  vars := [(10, ⟨"a", "a", .integer, true, true⟩), (7, ⟨"b", "b", .integer, true, true⟩),
    (4, ⟨"b", "b", .integer, true, true⟩), (5, ⟨"a", "a", .integer, true, true⟩),
    (0, ⟨"a", "a", .integer, true, true⟩)]
  funs := [(3, ⟨"main", "main", [], .integer⟩)]

theorem parse_aliasTokens : parse aliasTokens = .ok aliasProgram := by
  rfl

theorem check_aliasProgram : check builtins aliasProgram = .ok aliasTable := by
  rfl

/-- The run of that program keeps all types and yields 2. -/
theorem checked_run_typed_alias :
    parse aliasTokens = .ok aliasProgram ∧ check builtins aliasProgram = .ok aliasTable ∧
      (∀ m ∈ (aliasProgram.record 20 none).moments, m.Typed aliasTable aliasProgram) ∧
      (∀ v s, Eval.program 20 aliasProgram (.initial none) = .ok v s → v = .nil ∨ ∃ n, v = .integer n) ∧
      match Eval.program 20 aliasProgram (.initial none) with
      | .ok v _ => v = .integer 2
      | .error _ _ => False := by
  have hrun := checked_run_typed parse_aliasTokens check_aliasProgram 20 none
  exact ⟨parse_aliasTokens, check_aliasProgram, hrun.2.1, hrun.2.2.2.1, rfl⟩

/-! ## §2 Names -/

/-- **Names are resolved alike before and during a run.** At every moment of every run of a checked program, an access
or an assignment finds the variable created by the one declaration that its name stands for in the text, and a call
finds the function that the table has for it.  So no name is ever unknown or defined twice, and an assignment fails
for its receiver only if that is an immutable global. -/
theorem checked_run_resolved (hparse : parse tokens = .ok p) (hcheck : check builtins p = .ok t) (fuel : Nat)
    (limit : Option Nat) :
    Recorder.forget (Traced.program fuel p (.initial limit)) = Eval.program fuel p (.initial limit) ∧
      (∀ a d d', (a, d) ∈ p.bindings → (a, d') ∈ p.bindings → d = d') ∧
      (∀ m ∈ (p.record fuel limit).moments, m.Resolved t p) ∧
      ∀ e s, Eval.program fuel p (.initial limit) = .error (.error e) s →
        (∀ name offset, e ≠ .unknownVariable name offset) ∧
        (∀ name arity offset, e ≠ .unknownFunction name arity offset) ∧
        (∀ name offset, e ≠ .alreadyDefined name offset) ∧
        ∀ name offset, e = .immutableAssignment name offset →
          AssignsConstant t p (p.record fuel limit).moments name offset := by
  obtain ⟨funs, w, hsound⟩ := sound_record hparse hcheck fuel limit
  have houtcome := outcome_of_check hparse hcheck fuel limit
  refine ⟨Traced.forget_program fuel p limit, fun _ _ _ => Program.bindings_unique (nodup_ids_of_parse hparse),
    hsound.resolved, fun e s heq => ?_⟩
  rw [heq] at houtcome
  refine ⟨?_, ?_, ?_, ?_⟩
  · rintro name offset rfl
    exact houtcome
  · rintro name arity offset rfl
    exact houtcome
  · rintro name offset rfl
    exact houtcome
  · rintro name offset rfl
    exact houtcome

/-- The tokens of a program that assigns a constant: `VAL k = 3; FUN main(): Integer DO k = 4; RETURN k; END`. -/
def constantTokens : List Token :=
  [⟨.identifier, "VAL", 0⟩, ⟨.identifier, "k", 4⟩, ⟨.operator, "=", 6⟩, ⟨.integer, "3", 8⟩, ⟨.operator, ";", 9⟩,
    ⟨.identifier, "FUN", 11⟩, ⟨.identifier, "main", 15⟩, ⟨.operator, "(", 19⟩, ⟨.operator, ")", 20⟩,
    ⟨.operator, ":", 21⟩, ⟨.identifier, "Integer", 23⟩, ⟨.identifier, "DO", 31⟩, ⟨.identifier, "k", 34⟩,
    ⟨.operator, "=", 36⟩, ⟨.integer, "4", 38⟩, ⟨.operator, ";", 39⟩, ⟨.identifier, "RETURN", 41⟩,
    ⟨.identifier, "k", 48⟩, ⟨.operator, ";", 49⟩, ⟨.identifier, "END", 51⟩]

/-- The tree of that program. -/
def constantProgram : Program where
  globals := [⟨⟨0, 0⟩, "k", false, none, some (.literal ⟨1, 8⟩ (.integer 3))⟩]
  functions := [⟨⟨2, 11⟩, "main", [], some "Integer",
    [.assignment 34 (.variable ⟨3, 34⟩ "k") (.literal ⟨4, 38⟩ (.integer 4)), .returning 41 (.variable ⟨5, 48⟩ "k")]⟩]

/-- What checking finds out about it. -/
def constantTable : SideTable where
  types := [(5, .integer), (4, .integer), (3, .integer), (1, .integer)]
  vars := [(5, ⟨"k", "k", .integer, false, false⟩), (3, ⟨"k", "k", .integer, false, false⟩),
    (0, ⟨"k", "k", .integer, false, false⟩)]
  funs := [(2, ⟨"main", "main", [], .integer⟩)]

theorem parse_constantTokens : parse constantTokens = .ok constantProgram := by
  rfl

theorem check_constantProgram : check builtins constantProgram = .ok constantTable := by
  rfl

/-- The run of that program resolves all names and fails where the constant is assigned. -/
theorem checked_run_resolved_constant :
    parse constantTokens = .ok constantProgram ∧ check builtins constantProgram = .ok constantTable ∧
      (∀ m ∈ (constantProgram.record 20 none).moments, m.Resolved constantTable constantProgram) ∧
      match Eval.program 20 constantProgram (.initial none) with
      | .error stop _ => stop = .error (.immutableAssignment "k" 34) ∧
        AssignsConstant constantTable constantProgram (constantProgram.record 20 none).moments "k" 34
      | .ok _ _ => False := by
  have hrun := checked_run_resolved parse_constantTokens check_constantProgram 20 none
  exact ⟨parse_constantTokens, check_constantProgram, hrun.2.2.1, rfl, (hrun.2.2.2 _ _ rfl).2.2.2 _ _ rfl⟩

end BlockLang
