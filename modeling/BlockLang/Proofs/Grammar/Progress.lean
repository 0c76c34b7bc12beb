import BlockLang.Proofs.Grammar.Mirroring
import Mathlib.Logic.Function.Iterate

/-!
# Reading makes progress

The readers of the grammar have bounds, which end their recursion and their loops.  Reading would end without them:
what is done where no bound is left makes no difference to a reader whose bound exceeds the number of tokens that are
left, because each rule consumes a token before it comes back to itself, and each pass of a loop but the last one
consumes one.  No token has to be well formed for that.

## Main definitions

- `Reader.expressionFrom`, `Reader.statementFrom`: the recursion of the grammar, unfolded from any readers.
- `Reader.Start`: the rules that reading can start with.
- `Reader.Start.Progresses`: from some token on, a rule returns and goes forward.
- `Reader.LoopsEnd`: the loops of the rules end.

## Main statement

- `reading_progresses`: every rule makes progress from every token of every list on, and every loop ends.
-/

namespace BlockLang

open Stateful

/-- The place before the token that has an index. -/
def ReaderState.before (tokens : List Token) (position nextId : Nat) : ReaderState :=
  { ReaderState.ofTokens tokens with rest := tokens.drop position, nextId := nextId }

theorem ReaderState.eq_before_of_uses {tokens used : List Token} {position nextId : Nat} {t : ReaderState}
    (h : position ≤ tokens.length) (huses : (ReaderState.before tokens position nextId).Uses used t) :
    t = .before tokens (position + used.length) t.nextId ∧ position + used.length ≤ tokens.length := by
  have hrest : tokens.drop position = used ++ t.rest := huses.rest
  have htail : t.rest = tokens.drop (position + used.length) := by
    rw [← List.drop_drop, hrest, List.drop_left]
  have hlength : tokens.length - position = used.length + t.rest.length := by
    rw [← List.length_drop, hrest, List.length_append]
  refine ⟨?_, by omega⟩
  obtain ⟨rest, endOffset, id⟩ := t
  obtain rfl := htail
  obtain rfl := huses.endOffset
  rfl

/-- Places look alike only if they are the same. -/
def ReaderState.Likeness.same : ReaderState.Likeness where
  floor := 0
  edge := 0
  Alike := Eq
  sameNext h _ := .inl h
  nextId_eq h := h ▸ rfl
  withId _ h := h ▸ rfl
  advance h _ := h ▸ rfl
  nil_of_edge := by
    rintro s s' rfl - hedge
    have hnil : s.rest = [] := List.length_eq_zero_iff.mp (Nat.le_zero.mp hedge)
    exact ⟨hnil, hnil⟩

namespace Reader

variable {α : Type} {b : Nat} {s : ReaderState}

/-! ## §1 The recursion without its bounds -/

/-- The recursion of expressions, unfolded so many times from some reader. -/
def expressionFrom (bottom : Reader Expr) : Nat → Reader Expr
  | 0 => bottom
  | n + 1 => logical (expressionFrom bottom n) n

/-- The recursion of statements, unfolded so many times from some readers. -/
def statementFrom (bottom : Reader Expr) (bottom' : Reader Statement) : Nat → Reader Statement
  | 0 => bottom'
  | n + 1 => statementOf (expressionFrom bottom n) (statementFrom bottom bottom' n) n

/-- The rules of the grammar that reading can start with. -/
inductive Start where
  | source
  | global
  | function
  | parameter
  | list
  /-- A block that ends before one of these texts. -/
  | block (terminators : List String)
  | statement
  | expression
  /-- An expression of one level and those that bind tighter; 5 is the level of primary expressions. -/
  | level (level : Nat)

namespace Start

/-- What a rule yields. -/
def Tree : Start → Type
  | .source => Program
  | .global => Global
  | .function => Function
  | .parameter => Parameter
  | .list => Expr
  | .block _ => List Statement
  | .statement => Statement
  | .expression => Expr
  | .level _ => Expr

/-- The reader of a rule. -/
def reader : (rule : Start) → Reader rule.Tree
  | .source => Reader.program
  | .global => Reader.global
  | .function => Reader.function
  | .parameter => Reader.parameter
  | .list => withBound fun n => listLiteral (expressionWithin n) n
  | .block terminators => blockBefore terminators
  | .statement => Reader.statement
  | .expression => Reader.expression
  | .level k => expressionAt k

/-- The steps of a rule with some bound, from readers of expressions and statements on. -/
def steps (expression : Reader Expr) (statement : Reader Statement) (n : Nat) : (rule : Start) → Reader rule.Tree
  | .source => programOf (globalOf expression n) (functionOf statement n) n
  | .global => globalOf expression n
  | .function => functionOf statement n
  | .parameter => Reader.parameter
  | .list => listLiteral expression n
  | .block terminators => Reader.block statement terminators n
  | .statement => statement
  | .expression => expression
  | .level 1 => logical expression n
  | .level 2 => comparison expression n
  | .level 3 => additive expression n
  | .level 4 => multiplicative expression n
  | .level _ => primary expression n

theorem reader_eq (rule : Start) :
    rule.reader = withBound fun n => rule.steps (expressionWithin n) (statementWithin n) n := by
  cases rule with
  | level k => rcases k with _ | _ | _ | _ | _ | k <;> rfl
  | _ => rfl

/-- From the token at `position` on, a rule makes progress. -/
structure Progresses (rule : Start) (tokens : List Token) (position nextId : Nat) : Prop where
  /-- The rule returns: unfolding the recursion a little deeper than there are tokens leaves nothing open. -/
  returns (bottom : Reader Expr) (bottom' : Reader Statement) (n : Nat) (hn : tokens.length - position + 2 ≤ n) :
    rule.steps (expressionFrom bottom n) (statementFrom bottom bottom' n) n (.before tokens position nextId) =
      rule.reader (.before tokens position nextId)
  /-- If it succeeds, at least one token has been consumed. -/
  grows {tree : rule.Tree} {t : ReaderState} (h : rule.reader (.before tokens position nextId) = .ok tree t) :
    ∃ position' nextId', t = .before tokens position' nextId' ∧ position < position' ∧ position' ≤ tokens.length
  /-- If it fails, it has not gone back. -/
  keeps {e : GrammarError} {t : ReaderState} (h : rule.reader (.before tokens position nextId) = .error e t) :
    ∃ position' nextId', t = .before tokens position' nextId' ∧ position ≤ position' ∧ position' ≤ tokens.length

end Start

/-- A loop ends: whatever is done behind more passes than there are tokens, it is not reached. -/
def Ends (pass : Reader α → Reader α) (loop : Nat → Reader α) : Prop :=
  ∀ s bottom n, s.rest.length < n → pass^[n] bottom s = loop s.rest.length s

/-- Reads an arm of a switch that has a value, from its `CASE` on. -/
def arm : Reader Case :=
  withBound fun n => valueCase (expressionWithin n) (statementWithin n) n

/-- The loops of the rules end. -/
structure LoopsEnd : Prop where
  globals : Ends (manyPass (·.peekOneOf ["LIST", "VAR", "VAL"]) global)
    (many (·.peekOneOf ["LIST", "VAR", "VAL"]) global)
  functions : Ends (manyPass (·.peek "FUN") function) (many (·.peek "FUN") function)
  statements (terminators : List String) :
    Ends (statementsPass statement terminators) (statements statement terminators)
  arms : Ends (manyPass (·.peek "CASE") arm) (many (·.peek "CASE") arm)
  /-- The operands of a level are joined to the one on their left. -/
  operands (level : Nat) (left : Expr) (s : ReaderState) (bottom : Expr → Reader Expr) (n : Nat)
    (hn : s.rest.length < n) : (chainPass level (expressionAt (level + 1)))^[n] bottom left s =
      chain level (expressionAt (level + 1)) s.rest.length left s
  elements : Ends (manyPass (·.peek ",") (advance *> expression)) (many (·.peek ",") (advance *> expression))
  arguments (closing : String) : Ends (moreItemsPass expression closing) (moreItems expression closing)
  parameters (closing : String) : Ends (moreItemsPass parameter closing) (moreItems parameter closing)

/-! ## §2 Rules -/

theorem Mirrors.apply_eq {r r' : Reader α} (h : Mirrors .same b r r') (hb : s.rest.length ≤ b) : r s = r' s := by
  have hsame := (h s s).mirrored rfl (hb.trans_eq (Nat.zero_add b).symm) (Nat.zero_le _)
  generalize r s = result, r' s = result' at hsame
  cases hsame with
  | ok ht => rw [show _ = _ from ht]
  | error ht => rw [show _ = _ from ht]

/-- A reader that consumes tokens only does what it does itself. -/
theorem Mirrors.same {r : Reader α} (h : ∀ s : ReaderState, ∃ used, s.Uses used (place (r s))) :
    Mirrors .same b r r := by
  refine fun s s' => ⟨h s, ?_⟩
  rintro (rfl : s = s') - -
  cases r s with
  | ok x t => exact .ok rfl
  | error e t => exact .error rfl

theorem mirrors_steps {L : ReaderState.Likeness} (rule : Start) {q : Nat → Reader Expr} {r : Nat → Reader Statement}
    {n n' e : Nat} (hzero : 0 < e ∨ q 0 = expressionWithin 0) (hq : ∀ n, q (n + 1) = logical (q n) n)
    (hr : ∀ n, r (n + 1) = statementOf (q n) (r n) n) (hn : b + 1 ≤ n) (hn' : b + (e + 1) ≤ n') :
    Mirrors L b (rule.steps (expressionWithin n) (statementWithin n) n) (rule.steps (q n') (r n') n') := by
  have hexpression : Mirrors L b (expressionWithin n) (q n') :=
    mirrors_expressionWithin hzero hq (by omega) (by omega)
  -- Inside a level, expressions come behind a token.
  have hless := hexpression.mono (Nat.sub_le b 1)
  have hadvances := advances_expressionWithin n
  have hread := readBy_expressionWithin n
  have hstatement : Mirrors L b (statementWithin n) (r n') := mirrors_statementWithin hzero hq hr (by omega) hn'
  have hle : b ≤ n := by omega
  have hle' : b ≤ n' := by omega
  have hlevel : b - 1 ≤ n := by omega
  have hlevel' : b - 1 ≤ n' := by omega
  cases rule with
  | source => exact mirrors_programOf hzero hq hr hle hn'
  | global => exact mirrors_globalOf hexpression hadvances hle hle'
  | function => exact mirrors_functionOf (hstatement.mono (Nat.sub_le b 1)) (advances_statementWithin n) hle hle'
  | parameter => exact mirrors_parameter
  | list => exact mirrors_listLiteral hexpression hadvances hle hle'
  | block terminators => exact mirrors_block hstatement (advances_statementWithin n) terminators hle hle'
  | statement => exact hstatement
  | expression => exact hexpression
  | level k =>
    rcases k with _ | _ | _ | _ | _ | k
    · exact mirrors_primary hless hlevel hlevel'
    · exact mirrors_logical hless hlevel hlevel' hread
    · exact mirrors_comparison hless hlevel hlevel' hread
    · exact mirrors_additive hless hlevel hlevel' hread
    · exact mirrors_multiplicative hless hlevel hlevel' hread
    · exact mirrors_primary hless hlevel hlevel'

theorem advances_steps (rule : Start) (n : Nat) :
    Advances (rule.steps (expressionWithin n) (statementWithin n) n) := by
  have hexpression := readBy_expressionWithin n
  have hstatement := readBy_statementWithin n
  cases rule with
  | source => exact advances_programOf (readBy_globalOf hexpression n) (readBy_functionOf hstatement n) n
  | global => exact advances_globalOf hexpression n
  | function => exact advances_functionOf hstatement n
  | parameter => exact advances_of_readBy readBy_parameter (by simp [Phrase.parameter, Parameter.symbols])
  | list =>
    intro s e t h
    obtain ⟨-, -, -, -, hread⟩ := read_of_listLiteral hexpression h
    exact length_lt_of_read hread e.symbols_ne_nil
  | block terminators =>
    -- A block has a statement, and a statement is written with at least one token.
    intro s body t h
    obtain ⟨hne, hread⟩ := read_of_block hstatement h
    refine length_lt_of_read hread fun hnil => ?_
    obtain ⟨first, more, rfl⟩ := List.exists_cons_of_ne_nil hne
    exact first.symbols_ne_nil (List.append_eq_nil_iff.mp hnil).1
  | statement => exact advances_statementWithin n
  | expression => exact advances_expressionWithin n
  | level k =>
    rcases k with _ | _ | _ | _ | _ | k
    · exact advances_of_readBy (readBy_primary hexpression n) Expr.symbols_ne_nil
    · exact advances_of_readBy (readBy_logical hexpression n) Expr.symbols_ne_nil
    · exact advances_of_readBy (readBy_comparison hexpression n) Expr.symbols_ne_nil
    · exact advances_of_readBy (readBy_additive hexpression n) Expr.symbols_ne_nil
    · exact advances_of_readBy (readBy_multiplicative hexpression n) Expr.symbols_ne_nil
    · exact advances_of_readBy (readBy_primary hexpression n) Expr.symbols_ne_nil

namespace Start

variable (rule : Start)

theorem reader_apply (s : ReaderState) : rule.reader s =
    rule.steps (expressionWithin (s.rest.length + 1)) (statementWithin (s.rest.length + 1)) (s.rest.length + 1) s := by
  rw [reader_eq]
  rfl

theorem uses_reader (s : ReaderState) : ∃ used, s.Uses used (place (rule.reader s)) := by
  have hmirrors : Mirrors .same s.rest.length _ _ := mirrors_steps rule (e := 0) (r := statementWithin) (.inr rfl)
    (fun _ => rfl) (fun _ => rfl) (le_refl (s.rest.length + 1)) (le_refl (s.rest.length + 1))
  rw [reader_apply]
  exact (hmirrors s s).uses

theorem advances_reader : Advances rule.reader := by
  intro s tree t h
  rw [reader_apply] at h
  exact advances_steps rule _ s tree t h

/-- What is done where no bound is left is done nowhere, if the bound exceeds the tokens that are left. -/
theorem steps_eq_reader (bottom : Reader Expr) (bottom' : Reader Statement) {n : Nat} (hn : s.rest.length + 2 ≤ n) :
    rule.steps (expressionFrom bottom n) (statementFrom bottom bottom' n) n s = rule.reader s := by
  have hmirrors : Mirrors .same s.rest.length _ _ := mirrors_steps rule (e := 1) (q := expressionFrom bottom)
    (r := statementFrom bottom bottom') (.inl Nat.one_pos) (fun _ => rfl) (fun _ => rfl)
    (le_refl (s.rest.length + 1)) hn
  rw [reader_apply]
  exact (hmirrors.apply_eq (le_refl _)).symm

theorem progresses {tokens : List Token} {position : Nat} (h : position ≤ tokens.length) (nextId : Nat) :
    rule.Progresses tokens position nextId := by
  have hlength : (ReaderState.before tokens position nextId).rest.length = tokens.length - position :=
    List.length_drop
  refine ⟨fun bottom bottom' n hn => rule.steps_eq_reader bottom bottom' (by omega), fun {tree t} hok => ?_,
    fun {e t} herror => ?_⟩
  · obtain ⟨used, huses⟩ := rule.uses_reader (.before tokens position nextId)
    rw [hok] at huses
    -- Fewer tokens are left, so some have been consumed.
    have hused : 0 < used.length := by
      have hlt : t.rest.length < _ := rule.advances_reader _ _ _ hok
      rw [huses.rest, List.length_append] at hlt
      exact Nat.lt_of_add_lt_add_right (hlt.trans_le' (Nat.zero_add _).le)
    obtain ⟨heq, hle⟩ := ReaderState.eq_before_of_uses h huses
    exact ⟨position + used.length, t.nextId, heq, by omega, hle⟩
  · obtain ⟨used, huses⟩ := rule.uses_reader (.before tokens position nextId)
    rw [herror] at huses
    obtain ⟨heq, hle⟩ := ReaderState.eq_before_of_uses h huses
    exact ⟨position + used.length, t.nextId, heq, Nat.le_add_right _ _, hle⟩

end Start

/-! ## §3 Loops -/

/-- A loop that is read alike with any passes behind its last one ends. -/
theorem ends_of_mirrors {pass : Reader α → Reader α} {loop : Nat → Reader α}
    (h : ∀ b n n' bottom, b ≤ n → b + 1 ≤ n' → Mirrors .same b (loop n) (pass^[n'] bottom)) : Ends pass loop :=
  fun s bottom n hn => ((h s.rest.length s.rest.length n bottom (le_refl _) hn).apply_eq (le_refl _)).symm

theorem ends_many {more : ReaderState → Bool} {item : Reader α} (hmore : ReaderState.Looks more)
    (huses : ∀ s : ReaderState, ∃ used, s.Uses used (place (item s))) (hadvances : Advances item) :
    Ends (manyPass more item) (many more item) :=
  ends_of_mirrors fun _ _ _ _ hn hn' => mirrors_many_of_passes (q := fun n => (manyPass more item)^[n] _) hmore
    (.same huses) hadvances (.inl Nat.one_pos) (fun _ => Function.iterate_succ_apply' ..) hn hn'

theorem ends_statements (terminators : List String) :
    Ends (statementsPass statement terminators) (statements statement terminators) :=
  ends_of_mirrors fun _ _ _ _ hn hn' => mirrors_statements_of_passes
    (q := fun n => (statementsPass statement terminators)^[n] _) (.same Start.statement.uses_reader)
    Start.statement.advances_reader terminators (.inl Nat.one_pos) (fun _ => Function.iterate_succ_apply' ..) hn hn'

theorem ends_moreItems {item : Reader α} (huses : ∀ s : ReaderState, ∃ used, s.Uses used (place (item s)))
    (closing : String) : Ends (moreItemsPass item closing) (moreItems item closing) :=
  ends_of_mirrors fun _ _ _ _ hn hn' => mirrors_moreItems_of_passes (q := fun n => (moreItemsPass item closing)^[n] _)
    (.same huses) closing (.inl Nat.one_pos) (fun _ => Function.iterate_succ_apply' ..) hn hn'

theorem mirrors_statement (n : Nat) : Mirrors .same n (statementWithin (n + 1)) (statementWithin (n + 1)) :=
  mirrors_statementWithin (e := 0) (.inr rfl) (fun _ => rfl) (fun _ => rfl) le_rfl le_rfl

theorem uses_arm (s : ReaderState) : ∃ used, s.Uses used (place (arm s)) := by
  have hexpression (n : Nat) : Mirrors .same n (expressionWithin (n + 1)) (expressionWithin (n + 1)) :=
    mirrors_expressionWithin (e := 0) (.inr rfl) (fun _ => rfl) (Nat.le_succ n) (Nat.le_succ n)
  exact (mirrors_valueCase (hexpression s.rest.length) (mirrors_statement s.rest.length) (advances_statementWithin _)
    (Nat.le_succ _) (Nat.le_succ _) s s).uses

theorem advances_arm : Advances arm :=
  fun s => advances_valueCase (mirrors_statement s.rest.length) (advances_statementWithin _) (Nat.le_succ _)
    (Nat.le_succ _) (advances_expressionWithin _) s

theorem loopsEnd : LoopsEnd where
  globals := ends_many (ReaderState.looks_peekOneOf _) Start.global.uses_reader Start.global.advances_reader
  functions := ends_many (ReaderState.looks_peek _) Start.function.uses_reader Start.function.advances_reader
  statements := ends_statements
  arms := ends_many (ReaderState.looks_peek _) uses_arm advances_arm
  operands level left s bottom n hn := by
    have hchain := mirrors_chain_of_passes (q := fun n => (chainPass level (expressionAt (level + 1)))^[n] bottom) level
      (.same (Start.level (level + 1)).uses_reader) (.inl Nat.one_pos) (fun _ => Function.iterate_succ_apply' ..)
      (le_refl s.rest.length) hn left
    exact (hchain.apply_eq (le_refl _)).symm
  elements := by
    have helement := mirrors_element (Mirrors.same (b := 0) Start.expression.uses_reader)
    exact ends_many (ReaderState.looks_peek _) (fun s => (helement s s).uses)
      (advances_element Start.expression.advances_reader)
  arguments := ends_moreItems Start.expression.uses_reader
  parameters := ends_moreItems Start.parameter.uses_reader

end Reader

/-- **Reading always makes progress.** From any token of any list on, scanned or not, each rule of the grammar returns;
it has consumed at least one token if it succeeds, has not gone back if it fails, and is never behind the last token.
Each pass of a loop that is not the last one consumes a token, so every loop ends. -/
theorem reading_progresses {tokens : List Token} {position : Nat} (h : position ≤ tokens.length) (nextId : Nat) :
    (∀ rule : Reader.Start, rule.Progresses tokens position nextId) ∧ Reader.LoopsEnd :=
  ⟨fun rule => rule.progresses h nextId, Reader.loopsEnd⟩

/-- Tokens of no text: their kinds do not fit what they say, and their offsets go down. -/
def strayTokens : List Token :=
  [⟨.string, "FUN", 7⟩, ⟨.integer, "[", 5⟩, ⟨.operator, "CASE", 0⟩]

/-- A list that is begun by a bracket of the wrong kind fails behind it. -/
theorem reading_progresses_stray :
    1 ≤ strayTokens.length ∧ (∀ rule : Reader.Start, rule.Progresses strayTokens 1 0) ∧
      Reader.Start.list.reader (.before strayTokens 1 0) =
        .error (.unexpectedToken .expression "CASE" 0) (.before strayTokens 2 1) :=
  ⟨by decide, (reading_progresses (by decide) 0).1, by rfl⟩

end BlockLang
