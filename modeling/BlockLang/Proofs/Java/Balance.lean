import BlockLang.Proofs.Java.Grouping
import BlockLang.Proofs.Java.Printer

/-!
# Generated programs are balanced

All that is printed of an accepted program is balanced, since its names are words.  So the class opens the first brace
and closes the last one, and the braces of a method enclose the lines of its statements and nothing else.

## Main statement

- `java_brackets_balanced`: brackets, literals and indentation of a generated program.
-/

namespace BlockLang

open Java

variable {source : String} {tokens : List Token} {p : Program} {t : SideTable}

/-! ## §1 Parts of a program -/

/-- Names that the grammar can write are printed as words. -/
theorem mentions_of_wellFormed (htable : t.Worded) {x : Expr} (h : x.isList = true ∨ x.WellFormed) : Mentions t x := by
  cases x with
  | literal | group | binary | list => trivial
  | «variable» node name => exact htable.variableName node.id (h.resolve_left nofun)
  | element node name index => exact htable.variableName node.id (h.resolve_left nofun).1
  | call node name arguments => exact htable.functionName node.id (h.resolve_left nofun).1

/-- The expressions of a program have balanced texts. -/
theorem balanced_of_outermost (htable : t.Worded) (hp : p.WellFormed) :
    ∀ e ∈ p.outermost, Balanced (Java.expression t e) :=
  fun e he => balanced_expression e fun _ hx => mentions_of_wellFormed htable (hp.of_mem_parts he hx)

/-- The statements of a function have balanced lines. -/
theorem balanced_body (htable : t.Worded) (hp : p.WellFormed) {f : Function} (hf : f ∈ p.functions) :
    Balanced (render (statements t 2 f.body)) := by
  have hnames := (Writable.function (hp.functions f hf)).names
  refine balanced_statements htable 2 f.body ⟨(List.forall_mem_append.mp hnames).2, fun e he => ?_⟩
  exact balanced_of_outermost htable hp e (List.mem_append_right _ (List.mem_flatMap.mpr ⟨f, hf, he⟩))

theorem balanced_head (htable : t.Worded) (hp : p.WellFormed) {f : Function} (hf : f ∈ p.functions) :
    Balanced (methodHead t f) := by
  obtain ⟨hname, hparameters, -⟩ := hp.functions f hf
  exact balanced_methodHead htable hname fun q hq => (hparameters q hq).1

/-- Functions of the program, each with an empty line before it. -/
theorem balanced_functions (htable : t.Worded) (hp : p.WellFormed) {fs : List Function} (hfs : fs ⊆ p.functions) :
    Balanced (render (fs.flatMap fun f => .blank :: Java.function t f)) := by
  induction fs with
  | nil => exact .empty
  | cons f rest ih =>
    obtain ⟨hf, hrest⟩ := List.cons_subset.mp hfs
    have hfunction := balanced_function (balanced_head htable hp hf) (balanced_body htable hp hf)
    exact fun _ => .lines (.line 0 rfl (hfunction _)) (ih hrest _)

theorem balanced_globals (htable : t.Worded) (hp : p.WellFormed) : Balanced (render (Java.globals t p.globals)) := by
  have hall : ∀ gs ⊆ p.globals, Balanced (render (gs.map fun g => ⟨1, Java.global t g⟩)) := by
    intro gs hgs
    induction gs with
    | nil => exact .empty
    | cons g rest ih =>
      obtain ⟨hg, hrest⟩ := List.cons_subset.mp hgs
      have hglobal : Balanced (Java.global t g) := by
        refine balanced_global htable (hp.globals g hg).1 fun e he => ?_
        exact balanced_of_outermost htable hp e
          (List.mem_append_left _ (List.mem_flatMap.mpr ⟨g, hg, Option.mem_toList.mpr he⟩))
      exact fun _ => .line 1 (hglobal _) (ih hrest _)
  cases heq : p.globals with
  | nil => exact .empty
  | cons g rest => exact fun _ => .lines (hall (g :: rest) (heq ▸ List.Subset.refl _) _) rfl

theorem balanced_entryPoint : Balanced (render entryPoint) := by
  have hlines : entryPoint = ⟨1, "public static void main(String[] args) \x7b"⟩ ::
      [⟨2, "System.exit(new Main().main());"⟩] ++ [⟨1, "\x7d"⟩] := rfl
  have hopen : OpensBrace "public static void main(String[] args) \x7b" := fun _ => rfl
  have hbody : Balanced "System.exit(new Main().main());" := fun _ => rfl
  rw [hlines]
  exact hopen.block 1 fun _ => hbody.line 2 _

/-- The lines of a class before the given functions. -/
def classLines (t : SideTable) (p : Program) (fs : List Function) : List Line :=
  .blank :: Java.globals t p.globals ++ entryPoint ++ fs.flatMap fun f => .blank :: Java.function t f

theorem balanced_classLines (htable : t.Worded) (hp : p.WellFormed) {fs : List Function} (hfs : fs ⊆ p.functions) :
    Balanced (render (classLines t p fs)) := by
  have hbefore : Balanced (render (.blank :: Java.globals t p.globals)) :=
    fun _ => .line 0 rfl (balanced_globals htable hp _)
  exact fun _ => .lines (.lines (hbefore _) (balanced_entryPoint _)) (balanced_functions htable hp hfs _)

/-- The text of a program: the opening brace of the class, lines, more functions, and the closing brace. -/
theorem program_eq_append {fs gs : List Function} (h : p.functions = fs ++ gs) :
    Java.program t p = "public class Main \x7b" ++ ("\n" ++ render (classLines t p fs)) ++
      (render (gs.flatMap fun f => .blank :: Java.function t f) ++ "\n") ++ "\x7d\n" := by
  have hlines : programLines t p = ⟨0, "public class Main \x7b"⟩ ::
      (classLines t p fs ++ (gs.flatMap fun f => .blank :: Java.function t f) ++ [.blank, ⟨0, "\x7d"⟩]) := by
    simp [programLines, classLines, h]
  have hhead : Line.render ⟨0, "public class Main \x7b"⟩ = "public class Main \x7b" := rfl
  have hlast : render [.blank, ⟨0, "\x7d"⟩] = "\n" ++ "\x7d\n" := rfl
  rw [Java.program, hlines, render_cons, render_append, render_append, hhead, hlast]
  simp only [String.append_assoc]

/-- The text of a method: its head, and the lines of its statements between braces. -/
theorem render_function (t : SideTable) (f : Function) : render (Java.function t f) =
    ("    " ++ methodHead t f ++ "\x7b\n") ++ render (statements t 2 f.body) ++ "    \x7d\n" := by
  have hbrace : "\x7b\n" = "\x7b" ++ "\n" := rfl
  have hhead : Line.render ⟨1, methodHead t f ++ "\x7b"⟩ = "    " ++ (methodHead t f ++ "\x7b") := rfl
  have hlast : render [⟨1, "\x7d"⟩] = "    \x7d\n" := rfl
  rw [Java.function_eq, List.cons_append, render_cons, render_append, hhead, hlast, hbrace]
  simp only [String.append_assoc]

/-! ## §2 Programs -/

theorem opens_class : Leads [] "public class Main \x7b" ['\x7b'] := rfl

theorem closes_class : Leads ['\x7b'] "\x7d\n" [] := rfl

/-- The lines of the class, and the line break in front of them. -/
theorem balanced_lines (htable : t.Worded) (hp : p.WellFormed) {fs : List Function} (hfs : fs ⊆ p.functions) :
    Balanced ("\n" ++ render (classLines t p fs) ++ "\n") := by
  have hbreak : Balanced "\n" := fun _ => rfl
  exact (hbreak.append (balanced_classLines htable hp hfs)).append hbreak

/-- The class holds all lines. -/
theorem program_eq_class (t : SideTable) (p : Program) : Java.program t p =
    "public class Main \x7b" ++ ("\n" ++ render (classLines t p p.functions) ++ "\n") ++ "\x7d\n" := by
  rw [program_eq_append (List.append_nil _).symm, List.flatMap_nil, render_nil]
  simp only [String.empty_append, String.append_assoc]

/-- The braces of a method stand in those of the class alone, with the lines of its statements between them. -/
theorem program_eq_around (htable : t.Worded) (hp : p.WellFormed) {f : Function} (hf : f ∈ p.functions) :
    ∃ before after,
      Java.program t p = before ++ ("    " ++ methodHead t f ++ "\x7b\n") ++ render (statements t 2 f.body) ++
        "    \x7d\n" ++ after ∧
      Leads [] before ['\x7b'] ∧ Leads ['\x7b'] after [] := by
  obtain ⟨fs, gs, heq⟩ := List.append_of_mem hf
  have hbefore : fs ⊆ p.functions := heq ▸ List.subset_append_left _ _
  have hafter : gs ⊆ p.functions := heq ▸ List.subset_append_of_subset_right _ (List.subset_cons_self _ _)
  have hrest : Balanced (render (gs.flatMap fun f => .blank :: Java.function t f) ++ "\n") :=
    (balanced_functions htable hp hafter).append fun _ => rfl
  refine ⟨"public class Main \x7b" ++ ("\n" ++ render (classLines t p fs) ++ "\n"),
    render (gs.flatMap fun f => .blank :: Java.function t f) ++ "\n" ++ "\x7d\n", ?_,
    opens_class.append (balanced_lines htable hp hbefore _), (hrest _).append closes_class⟩
  have hblank : Line.render .blank ++ "\n" = "\n" := rfl
  rw [program_eq_append heq, List.flatMap_cons, List.cons_append, render_cons, render_append, render_function, hblank]
  simp only [String.append_assoc]

/-- **Generated programs are balanced.** The text of an accepted program is the opening brace of the class, a balanced
text, and the closing brace.  Java reads it to the end, with all brackets closed in their order, and at each line break
stands outside of literals.  The braces of the method of a function stand in those of the class alone, with the text of
its statements between them and nothing else.  A printer with a running indentation prints that text as well, and has
its indentation back after each statement, arm, block and function. -/
theorem java_brackets_balanced (htokens : tokenize source = .ok tokens) (hparse : parse tokens = .ok p)
    (hcheck : check builtins p = .ok t) :
    (∃ inner, Java.program t p = "public class Main \x7b" ++ inner ++ "\x7d\n" ∧ Balanced inner) ∧
    follow .start (Java.program t p).toList = some .start ∧
    (∀ before c after, c = '\n' ∨ c = '\r' → (Java.program t p).toList = before ++ c :: after →
      ∃ r, follow .start before = some r ∧ r.place.inLiteral = false) ∧
    (∀ f ∈ p.functions, ∃ before after,
      Java.program t p = before ++ ("    " ++ methodHead t f ++ "\x7b\n") ++ render (statements t 2 f.body) ++
        "    \x7d\n" ++ after ∧
      Leads [] before ['\x7b'] ∧ Balanced (methodHead t f) ∧ Balanced (render (statements t 2 f.body)) ∧
      Leads ['\x7b'] after []) ∧
    Printer.program t p ⟨"", 0⟩ = ⟨Java.program t p, 0⟩ ∧
      (∀ st s, (Printer.statement t st s).indent = s.indent) ∧ (∀ c s, (Printer.case t c s).indent = s.indent) ∧
      (∀ body s, (Printer.block t body s).indent = s.indent) ∧
      ∀ f s, (Printer.function t f s).indent = s.indent := by
  have hp := wellFormed_of_parse (form_of_mem_tokenize htokens) hparse
  have htable := worded_of_check hcheck hp
  have hinner := balanced_lines htable hp (List.Subset.refl _)
  have hall : Leads [] (Java.program t p) [] := by
    rw [program_eq_class]
    exact (opens_class.append (hinner _)).append closes_class
  refine ⟨⟨_, program_eq_class t p, hinner⟩, hall, fun before c after hc heq => ?_, fun f hf => ?_, Printer.program_eq t p,
    fun st s => ?_, fun c s => ?_, fun body s => ?_, fun f s => ?_⟩
  · rw [Leads, heq] at hall
    exact not_inLiteral_of_follow hc hall
  · obtain ⟨before, after, heq, hbefore, hafter⟩ := program_eq_around htable hp hf
    exact ⟨before, after, heq, hbefore, balanced_head htable hp hf, balanced_body htable hp hf, hafter⟩
  · rw [Printer.statement_eq, Printer.indent_print]
  · rw [Printer.case_eq, Printer.indent_print]
  · rw [Printer.block_eq, Printer.indent_print]
  · simp [Printer.function, Printer.block_eq]

/-- A program that prints a text of a brace, a quote and a backslash. -/
def bracedSource : String :=
  "FUN main(): Integer DO print(\"\x7d\\\"\\\\\"); RETURN 0; END"

/-- Its tokens. -/
def bracedTokens : List Token :=
  [⟨.identifier, "FUN", 0⟩, ⟨.identifier, "main", 4⟩, ⟨.operator, "(", 8⟩, ⟨.operator, ")", 9⟩, ⟨.operator, ":", 10⟩,
    ⟨.identifier, "Integer", 12⟩, ⟨.identifier, "DO", 20⟩, ⟨.identifier, "print", 23⟩, ⟨.operator, "(", 28⟩,
    ⟨.string, "\"\x7d\\\"\\\\\"", 29⟩, ⟨.operator, ")", 36⟩, ⟨.operator, ";", 37⟩, ⟨.identifier, "RETURN", 39⟩,
    ⟨.integer, "0", 46⟩, ⟨.operator, ";", 47⟩, ⟨.identifier, "END", 49⟩]

/-- Its `main`. -/
def bracedMain : Function :=
  ⟨⟨0, 0⟩, "main", [], some "Integer",
    [.expression 23 (.call ⟨2, 23⟩ "print" [.literal ⟨1, 29⟩ (.string "\x7d\"\\")]),
      .returning 39 (.literal ⟨3, 46⟩ (.integer 0))]⟩

/-- What checking finds out about it. -/
def bracedTable : SideTable where
  types := [(3, .integer), (2, .nil), (1, .string)]
  vars := []
  funs := [(2, ⟨"print", "System.out.println", [.any], .nil⟩), (0, ⟨"main", "main", [], .integer⟩)]

/-- The brace in that text closes none, since the quote and the backslash do not end the literal. -/
theorem java_brackets_balanced_braced :
    tokenize bracedSource = .ok bracedTokens ∧ parse bracedTokens = .ok ⟨[], [bracedMain]⟩ ∧
      check builtins ⟨[], [bracedMain]⟩ = .ok bracedTable ∧
      render (statements bracedTable 2 bracedMain.body) =
        "        System.out.println(\"\x7d\\\"\\\\\");\n        return 0;\n" ∧
      follow .start (Java.program bracedTable ⟨[], [bracedMain]⟩).toList = some .start := by
  have htokens : tokenize bracedSource = .ok bracedTokens := by decide +kernel
  have hparse : parse bracedTokens = .ok ⟨[], [bracedMain]⟩ := by rfl
  have hcheck : check builtins ⟨[], [bracedMain]⟩ = .ok bracedTable := by cbv
  exact ⟨htokens, hparse, hcheck, by decide +kernel, (java_brackets_balanced htokens hparse hcheck).2.1⟩

end BlockLang
