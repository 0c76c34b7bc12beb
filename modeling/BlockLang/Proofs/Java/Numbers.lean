import BlockLang.Pipeline
import BlockLang.Proofs.Java.Quotation
import BlockLang.Proofs.Token.Number

/-!
# Numbers from text to text

What is printed for a number is one token, which is read as that number and printed in the same way.  A decimal without
digits after its point is printed like the integer that it stands for, and read as this integer.  Integer literals of a
program must fit 32 bits, so a `main` that returns what is printed for an integer returns the integer, or the program is
refused at the literal.

## Main statement

- `number_texts_round_trip`: all of this, for integers and decimals of any size.
-/

namespace BlockLang

/-! ## §1 From a number to its text and back -/

theorem writtenAs_integer (n : Int) : (Literal.integer n).WrittenAs .integer (Digits.text n) where
  tokenize_eq := Scan.tokenize_of_number (.inl rfl) (Digits.isInteger_text n)
  primary_eq hcurrent hkind htext := by
    have htoken : (Literal.integer n).HasToken := trivial
    exact primary_of_spell htoken hcurrent hkind htext
  literal_eq := rfl

theorem writtenAs_decimal {d : Decimal} (hpos : 0 < d.scale) : (Literal.decimal d).WrittenAs .decimal d.plain where
  tokenize_eq := Scan.tokenize_of_number (.inr rfl) (Decimal.isDecimal_plain hpos)
  primary_eq hcurrent hkind htext := by
    have htoken : (Literal.decimal d).HasToken := .inr hpos
    have hspell : (Literal.decimal d).spell.2 = d.plain := if_pos hpos
    exact primary_of_spell htoken hcurrent hkind (htext.trans hspell.symm)
  literal_eq := rfl

namespace Reader

open Stateful

/-- A primary expression that nothing continues is a whole expression. -/
theorem expressionWithin_of_primary {n : Nat} {e : Expr} {s t : ReaderState}
    (h : primary (expressionWithin n) n s = .ok e t) (hstops : Stops 1 t.symbols) :
    expressionWithin (n + 1) s = .ok e t := by
  have hlevel {level : Nat} {operand : Reader Expr} (hle : 1 ≤ level) (hoperand : operand s = .ok e t) :
      operands level operand n s = .ok e t := by
    rw [operands, bind_of_ok hoperand, chain_of_stops e (hstops.mono hle)]
  have hmultiplicative : multiplicative (expressionWithin n) n s = .ok e t := hlevel (by decide) h
  have hadditive : additive (expressionWithin n) n s = .ok e t := hlevel (by decide) hmultiplicative
  have hcomparison : comparison (expressionWithin n) n s = .ok e t := hlevel (by decide) hadditive
  exact hlevel (by decide) hcomparison

end Reader

/-- The text of a literal alone is read as the literal. -/
theorem Literal.WrittenAs.readPhrase_eq {value : Literal} {kind : TokenKind} {text : String}
    (h : value.WrittenAs kind text) : readPhrase Reader.expression text = .ok (.literal ⟨0, 0⟩ value) := by
  have hcurrent : (ReaderState.ofTokens [⟨kind, text, 0⟩]).current = some ⟨kind, text, 0⟩ := rfl
  have hprimary : Reader.primary (Reader.expressionWithin 1) 1 (.ofTokens [⟨kind, text, 0⟩]) = _ :=
    h.primary_eq hcurrent rfl rfl
  have hread : Reader.expression (.ofTokens [⟨kind, text, 0⟩]) = _ :=
    Reader.expressionWithin_of_primary hprimary nofun
  have hphrase : Reader.expression.parse [⟨kind, text, 0⟩] = .ok (.literal ⟨0, 0⟩ value) := by
    unfold Reader.parse EStateM.run
    rw [hread]
    rfl
  unfold readPhrase
  rw [h.tokenize_eq]
  simp only [Except.mapError, bind, Except.bind, hphrase]

/-! ## §2 A program that returns a number -/

namespace Returning

/-- What stands before the number. -/
def before : String := "FUN main(): Integer DO RETURN "

/-- The program. -/
def source (number : String) : String := before ++ number ++ "; END"

/-- The tokens before the number. -/
def tokensBefore : List Token :=
  [⟨.identifier, "FUN", 0⟩, ⟨.identifier, "main", 4⟩, ⟨.operator, "(", 8⟩, ⟨.operator, ")", 9⟩, ⟨.operator, ":", 10⟩,
    ⟨.identifier, "Integer", 12⟩, ⟨.identifier, "DO", 20⟩, ⟨.identifier, "RETURN", 23⟩]

/-- Its tokens. -/
def tokens (number : String) : List Token :=
  tokensBefore ++ [⟨.integer, number, before.length⟩, ⟨.operator, ";", before.length + number.length⟩,
    ⟨.identifier, "END", before.length + number.length + 2⟩]

/-- Its tree, whose literal stands where the number does. -/
def tree (n : Int) (f : Node) (statement id : Nat) : Program :=
  ⟨[], [⟨f, "main", [], some "Integer", [.returning statement (.literal ⟨id, before.length⟩ (.integer n))]⟩]⟩

variable (n : Int)

theorem tokenize_source : tokenize (source (Digits.text n)) = .ok (tokens (Digits.text n)) := by
  have hchars : (source (Digits.text n)).toList = before.toList ++ ((Digits.text n).toList ++ "; END".toList) := by
    rw [source, String.toList_append, String.toList_append, List.append_assoc]
  have hform : TokenKind.integer.Form (Digits.text n).toList := Digits.isInteger_text n
  have hsemicolon : ∀ x ∈ "; END".toList.head?, ¬ Scan.IsNumberChar x := by
    intro x hx
    obtain rfl : ';' = x := Option.some.inj hx
    exact (by decide : ¬ (';'.isDigit ∨ ';' = '-' ∨ ';' = '.'))
  have hbefore (rest : List Char) : Scan.tokens 0 0 (before.toList ++ rest) =
      tokensBefore.foldr (fun t later => later.map (t :: ·)) (Scan.tokens 0 before.length rest) := rfl
  unfold tokenize
  rw [hchars, hbefore, Scan.tokens_of_number (.inl rfl) hform hsemicolon, String.ofList_toList, String.length_toList]
  rfl

/-- What has the outline of the tree is a tree like it. -/
theorem eq_of_outline {p : Program} (h : p.outline = (tree n .blank 0 0).outline) : ∃ f statement literal,
    p = ⟨[], [⟨f, "main", [], some "Integer", [.returning statement (.literal literal (.integer n))]⟩]⟩ := by
  obtain ⟨globals, functions⟩ := p
  simp only [Program.outline, tree, Program.mk.injEq, List.map_nil, List.map_eq_nil_iff, List.map_cons,
    List.map_eq_singleton_iff] at h
  obtain ⟨rfl, ⟨f, name, parameters, returns, body⟩, rfl, hf⟩ := h
  simp only [Function.outline, Function.mk.injEq, List.map_nil, List.map_eq_nil_iff, blockOutline_eq, List.map_cons,
    List.map_eq_singleton_iff] at hf
  obtain ⟨-, rfl, rfl, rfl, x, rfl, hx⟩ := hf
  cases x with
  | returning statement value =>
    simp only [Statement.outline, Statement.returning.injEq, true_and] at hx
    cases value with
    | literal literal found =>
      simp only [Expr.outline, Expr.literal.injEq, true_and] at hx
      exact ⟨f, statement, literal, by rw [hx]⟩
    | _ => simp [Expr.outline] at hx
  | _ => simp [Statement.outline] at hx

theorem parse_tokens : ∃ f statement id, parse (tokens (Digits.text n)) = .ok (tree n f statement id) := by
  have hproper := form_of_mem_tokenize (tokenize_source n)
  have hwf : (tree n .blank 0 0).WellFormed := by
    have hmain : IsName "main" := (hproper ⟨.identifier, "main", 4⟩ (by simp [tokens, tokensBefore])).isName rfl rfl
    have hinteger : IsName "Integer" :=
      (hproper ⟨.identifier, "Integer", 12⟩ (by simp [tokens, tokensBefore])).isName rfl rfl
    have hfunction : (⟨.blank, "main", [], some "Integer", [.returning 0 (.literal ⟨0, before.length⟩ (.integer n))]⟩ :
        Function).WellFormed :=
      ⟨hmain, nofun, fun t ht => Option.some.inj ht ▸ hinteger, List.cons_ne_nil _ _, trivial, trivial⟩
    exact ⟨nofun, List.forall_mem_singleton.mpr hfunction, List.cons_ne_nil _ _⟩
  have hsymbols : (tokens (Digits.text n)).map Token.symbol = (tree n .blank 0 0).symbols := by
    have htoken : (Literal.integer n).HasToken := trivial
    have hnumber : Token.symbol ⟨.integer, Digits.text n, before.length⟩ = .literal (.integer n) :=
      (Reader.symbol_of_literalOf? (literalOf?_spell htoken before.length)).symm
    rw [tokens, List.map_append, List.map_cons, hnumber]
    rfl
  obtain ⟨p, hparse, houtline⟩ := parse_of_symbols (fun t ht => (hproper t ht).readable) hwf hsymbols
  obtain ⟨f, statement, ⟨id, offset⟩, rfl⟩ := eq_of_outline n houtline
  -- The literal is anchored at the token of the number.
  have hanchored : StartsAt offset ((tokens (Digits.text n)).drop 8) := (anchored_of_parse hparse).2.1.2.2.1.2
  obtain rfl : before.length = offset := Option.some.inj hanchored
  exact ⟨f, statement, id, hparse⟩

variable (f : Node) (statement id : Nat)

theorem check_tree_of_lt (h : n.natAbs < 2 ^ 32) : ∃ table, checkProgram (tree n f statement id) = .ok table := by
  have hliteral : Checker.typeOfLiteral (.integer n) before.length = pure .integer := if_pos h
  unfold checkProgram check Checker.program tree
  simp only [Checker.functions, Checker.function, Checker.statements, Checker.statement, Checker.expression, hliteral]
  exact ⟨_, rfl⟩

theorem check_tree_of_ge (h : 2 ^ 32 ≤ n.natAbs) :
    checkProgram (tree n f statement id) = .error (.typing (.integerTooLarge before.length)) := by
  have hliteral : Checker.typeOfLiteral (.integer n) before.length = throw (.integerTooLarge before.length) :=
    if_neg h.not_gt
  unfold checkProgram check Checker.program tree
  simp only [Checker.functions, Checker.function, Checker.statements, Checker.statement, Checker.expression, hliteral]
  rfl

theorem run_tree (k : Nat) : (runProgram (k + 3) (tree n f statement id) (.initial none)).1 = .ok (.integer n) := rfl

/-- The value that a program with the number yields, or the error that it is refused with. -/
theorem execute_source :
    (n.natAbs < 2 ^ 32 → ∀ fuel ≥ 3, (execute fuel (source (Digits.text n))).1 = .ok (.integer n)) ∧
    (2 ^ 32 ≤ n.natAbs → ∀ fuel,
      (execute fuel (source (Digits.text n))).1 = .error (.typing (.integerTooLarge before.length))) := by
  obtain ⟨f, statement, id, hparse⟩ := parse_tokens n
  have hread : readProgram (source (Digits.text n)) = .ok (tree n f statement id) := by
    have hprogram : Reader.program.parse (tokens (Digits.text n)) = .ok (tree n f statement id) := hparse
    unfold readProgram readPhrase
    rw [tokenize_source]
    simp only [Except.mapError, bind, Except.bind, hprogram]
  constructor
  · intro hlt fuel hfuel
    obtain ⟨table, hcheck⟩ := check_tree_of_lt n f statement id hlt
    obtain ⟨k, rfl⟩ := Nat.exists_eq_add_of_le' hfuel
    have hsource : checkSource (source (Digits.text n)) = .ok (tree n f statement id, table) := by
      unfold checkSource
      simp only [hread, hcheck, bind, Except.bind, pure, Except.pure]
    unfold execute
    rw [hsource]
    exact run_tree n f statement id k
  · intro hge fuel
    have hcheck := check_tree_of_ge n f statement id hge
    have hsource : checkSource (source (Digits.text n)) = .error (.typing (.integerTooLarge before.length)) := by
      unfold checkSource
      simp only [hread, hcheck, bind, Except.bind]
    unfold execute
    rw [hsource]

end Returning

/-- **Number texts survive the round trip.** What is printed for an integer is one integer token and is read as that
integer; a program whose `main` returns it yields the integer if this has no more than 32 bits, and otherwise is refused
where the number stands.  What is printed for a decimal with digits after its point is one decimal token and is read as
that decimal, digit for digit; any other decimal but zero is printed as one integer token for the same number. -/
theorem number_texts_round_trip (h : Heap) :
    (∀ n : Int,
      (Literal.integer n).WrittenAs .integer (h.display (.integer n)) ∧
      readPhrase Reader.expression (h.display (.integer n)) = .ok (.literal ⟨0, 0⟩ (.integer n)) ∧
      (n.natAbs < 2 ^ 32 → ∀ fuel ≥ 3,
        (execute fuel (Returning.source (h.display (.integer n)))).1 = .ok (.integer n)) ∧
      (2 ^ 32 ≤ n.natAbs → ∀ fuel, (execute fuel (Returning.source (h.display (.integer n)))).1 =
        .error (.typing (.integerTooLarge Returning.before.length)))) ∧
    (∀ d : Decimal, 0 < d.scale →
      (Literal.decimal d).WrittenAs .decimal (h.display (.decimal d)) ∧
      readPhrase Reader.expression (h.display (.decimal d)) = .ok (.literal ⟨0, 0⟩ (.decimal d))) ∧
    ∀ d : Decimal, d.scale ≤ 0 → d.digits ≠ 0 → ∃ n : Int, (n : ℚ) = d.value ∧
      (Literal.integer n).WrittenAs .integer (h.display (.decimal d)) ∧
      readPhrase Reader.expression (h.display (.decimal d)) = .ok (.literal ⟨0, 0⟩ (.integer n)) := by
  have hinteger (n : Int) : h.display (.integer n) = Digits.text n := by rw [Heap.display, Heap.displayWithin]
  have hdecimal (d : Decimal) : h.display (.decimal d) = d.plain := by rw [Heap.display, Heap.displayWithin]
  refine ⟨fun n => ?_, fun d hpos => ?_, fun d hscale hne => ?_⟩
  · rw [hinteger]
    have hwritten := writtenAs_integer n
    obtain ⟨hvalue, hrefused⟩ := Returning.execute_source n
    exact ⟨hwritten, hwritten.readPhrase_eq, hvalue, hrefused⟩
  · rw [hdecimal]
    have hwritten := writtenAs_decimal hpos
    exact ⟨hwritten, hwritten.readPhrase_eq⟩
  · obtain ⟨n, htext, hvalue⟩ := Decimal.plain_of_nonpos hscale hne
    rw [hdecimal, htext]
    have hwritten := writtenAs_integer n
    exact ⟨n, hvalue, hwritten, hwritten.readPhrase_eq⟩

/-- The largest number that `main` may return as a literal and the first one beyond it, a decimal between minus one and
zero, and a decimal with unwritten zeros. -/
theorem number_texts_round_trip_limits :
    (execute 3 (Returning.source "-4294967295")).1 = .ok (.integer (-4294967295)) ∧
      (execute 3 (Returning.source "4294967296")).1 = .error (.typing (.integerTooLarge 30)) ∧
      (Literal.decimal ⟨-5, 3⟩).WrittenAs .decimal "-0.005" ∧
      ∃ n : Int, (n : ℚ) = Decimal.value ⟨-12, -2⟩ ∧ (Literal.integer n).WrittenAs .integer "-1200" := by
  obtain ⟨hintegers, hdecimals, hwholes⟩ := number_texts_round_trip .empty
  have hlargest : Heap.empty.display (.integer (-4294967295)) = "-4294967295" := rfl
  have hbeyond : Heap.empty.display (.integer 4294967296) = "4294967296" := rfl
  have hfraction : Heap.empty.display (.decimal ⟨-5, 3⟩) = "-0.005" := rfl
  have hzeros : Heap.empty.display (.decimal ⟨-12, -2⟩) = "-1200" := rfl
  refine ⟨?_, ?_, ?_, ?_⟩
  · rw [← hlargest]
    exact (hintegers (-4294967295)).2.2.1 (by decide) 3 le_rfl
  · rw [← hbeyond]
    exact (hintegers 4294967296).2.2.2 (by decide) 3
  · rw [← hfraction]
    exact (hdecimals ⟨-5, 3⟩ (by decide)).1
  · rw [← hzeros]
    obtain ⟨n, hvalue, hwritten, -⟩ := hwholes ⟨-12, -2⟩ (by decide) (by decide)
    exact ⟨n, hvalue, hwritten⟩

end BlockLang
