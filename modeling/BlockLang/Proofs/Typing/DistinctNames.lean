import BlockLang.Java.Program
import BlockLang.Proofs.Grammar.Soundness
import BlockLang.Proofs.Java.Words
import Mathlib

/-!
# Which runtime names differ

The locals of one function never share a runtime name, since each gets the least suffix that is free.  Globals and
functions get no suffix: their runtime names are the mangled ones, and mangling keeps apart all names but those that
have `-` and `_` in each other's place.  So two globals, or two functions of one arity, can share a runtime name
although their names in the program differ.

## Main definition

- `Alike`: names that differ in nothing but `-` for `_`.

## Main statements

- `localNames_distinct`: the names of locals.
- `topLevelNames_eq_iff`: the names of globals and functions.
-/

namespace BlockLang

open Java

variable {tokens : List Token} {p : Program} {t : SideTable}

/-! ## §1 Locals -/

/-- **Locals never share a name.** Names that are handed out one after the other are all different.  Each is the
mangled name with the least suffix that the names before it leave free, and no more suffixes are tried than there are
names before it, whether these look suffixed themselves or are mangled to the same text.  The locals of a function of
an accepted program, in all its blocks, get their runtime names in this way. -/
theorem localNames_distinct :
    (∀ sources, (LocalNames.empty.handOut sources).1.Nodup) ∧
    (∀ sources source, ∃ k ≤ sources.length,
      (LocalNames.empty.handOut (sources ++ [source])).1 =
        (LocalNames.empty.handOut sources).1 ++ [LocalNames.candidate (mangle source) k] ∧
      LocalNames.candidate (mangle source) k ∉ (LocalNames.empty.handOut sources).1 ∧
      ∀ j < k, LocalNames.candidate (mangle source) j ∈ (LocalNames.empty.handOut sources).1) ∧
    ∀ tokens p t, parse tokens = .ok p → check builtins p = .ok t → ∀ f ∈ p.functions,
      f.locals.map (fun x => (t.findVariable? x.2).map VariableInfo.runtimeName) =
        (LocalNames.empty.handOut (f.locals.map Prod.fst)).1.map some ∧
      (f.locals.map fun x => (t.findVariable? x.2).map VariableInfo.runtimeName).Nodup := by
  refine ⟨LocalNames.nodup_handOut, LocalNames.handOut_snoc, fun tokens p t hparse hcheck f hf => ?_⟩
  obtain ⟨entries, names, hentries, hgrants⟩ := grants_of_check hcheck (nodup_ids_of_parse hparse) hf
  have hnames : f.locals.map (fun x => (t.findVariable? x.2).map VariableInfo.runtimeName) =
      (LocalNames.empty.handOut (f.locals.map Prod.fst)).1.map some := by
    rw [hgrants.handed, ← hgrants.declared, List.map_map, List.map_map]
    exact List.map_congr_left fun x hx => by simp [hentries x hx]
  refine ⟨hnames, ?_⟩
  rw [hnames]
  exact (LocalNames.nodup_handOut _).map (Option.some_injective _)

/-- The tokens of a program whose second local looks like a suffixed one:
`FUN main(): Integer DO LET x = 1; LET x_1 = 2; IF TRUE DO LET x = x_1; END RETURN x; END`. -/
def suffixedTokens : List Token :=
  [⟨.identifier, "FUN", 0⟩, ⟨.identifier, "main", 4⟩, ⟨.operator, "(", 8⟩, ⟨.operator, ")", 9⟩, ⟨.operator, ":", 10⟩,
    ⟨.identifier, "Integer", 12⟩, ⟨.identifier, "DO", 20⟩, ⟨.identifier, "LET", 23⟩, ⟨.identifier, "x", 27⟩,
    ⟨.operator, "=", 29⟩, ⟨.integer, "1", 31⟩, ⟨.operator, ";", 32⟩, ⟨.identifier, "LET", 34⟩,
    ⟨.identifier, "x_1", 38⟩, ⟨.operator, "=", 42⟩, ⟨.integer, "2", 44⟩, ⟨.operator, ";", 45⟩,
    ⟨.identifier, "IF", 47⟩, ⟨.identifier, "TRUE", 50⟩, ⟨.identifier, "DO", 55⟩, ⟨.identifier, "LET", 58⟩,
    ⟨.identifier, "x", 62⟩, ⟨.operator, "=", 64⟩, ⟨.identifier, "x_1", 66⟩, ⟨.operator, ";", 69⟩,
    ⟨.identifier, "END", 71⟩, ⟨.identifier, "RETURN", 75⟩, ⟨.identifier, "x", 82⟩, ⟨.operator, ";", 83⟩,
    ⟨.identifier, "END", 85⟩]

/-- Its `main`. -/
def suffixedMain : Function :=
  ⟨⟨0, 0⟩, "main", [], some "Integer",
    [.declaration ⟨1, 23⟩ "x" none (some (.literal ⟨2, 31⟩ (.integer 1))),
      .declaration ⟨3, 34⟩ "x_1" none (some (.literal ⟨4, 44⟩ (.integer 2))),
      .conditional 47 (.literal ⟨5, 50⟩ (.boolean true))
        [.declaration ⟨6, 58⟩ "x" none (some (.variable ⟨7, 66⟩ "x_1"))] [],
      .returning 75 (.variable ⟨8, 82⟩ "x")]⟩

/-- What checking finds out about it. -/
def suffixedTable : SideTable where
  types := [(8, .integer), (7, .integer), (5, .boolean), (4, .integer), (2, .integer)]
  vars := [(8, ⟨"x", "x", .integer, true, false⟩), (6, ⟨"x", "x_2", .integer, true, false⟩),
    (7, ⟨"x_1", "x_1", .integer, true, false⟩), (3, ⟨"x_1", "x_1", .integer, true, false⟩),
    (1, ⟨"x", "x", .integer, true, false⟩)]
  funs := [(0, ⟨"main", "main", [], .integer⟩)]

/-- The inner `x` of that program cannot have the suffix 1, which looks taken and is. -/
theorem localNames_distinct_suffixed :
    parse suffixedTokens = .ok ⟨[], [suffixedMain]⟩ ∧ check builtins ⟨[], [suffixedMain]⟩ = .ok suffixedTable ∧
      suffixedMain.locals = [("x", 1), ("x_1", 3), ("x", 6)] ∧
      [suffixedTable.findVariable? 1, suffixedTable.findVariable? 3, suffixedTable.findVariable? 6].map
        (Option.map VariableInfo.runtimeName) = [some "x", some "x_1", some "x_2"] := by
  have hparse : parse suffixedTokens = .ok ⟨[], [suffixedMain]⟩ := by rfl
  have hcheck : check builtins ⟨[], [suffixedMain]⟩ = .ok suffixedTable := by cbv
  have hnames := (localNames_distinct.2.2 _ _ _ hparse hcheck suffixedMain (by simp)).1
  exact ⟨hparse, hcheck, by simp [suffixedMain, Function.locals, blockLocals, Statement.locals], hnames⟩

/-! ## §2 Mangled names -/

/-- One character is the other, or they are `-` and `_`. -/
def AlikeChars (c d : Char) : Prop :=
  c = d ∨ (c = '-' ∧ d = '_') ∨ (c = '_' ∧ d = '-')

/-- Two names that differ in nothing but `-` for `_`. -/
def Alike (name other : String) : Prop :=
  List.Forall₂ AlikeChars name.toList other.toList

/-- Of the characters of names, those alike are mangled to one. -/
theorem mangleChar_eq_iff {c d : Char} (hc : startsName c = true ∨ continuesName c = true)
    (hd : startsName d = true ∨ continuesName d = true) : mangleChar c = mangleChar d ↔ AlikeChars c d := by
  -- Names have no `$` of their own, so it stands for `@` alone.
  have hdollar : ∀ {x}, startsName x = true ∨ continuesName x = true → x ≠ '$' := by
    rintro x hx rfl
    revert hx
    decide
  have := hdollar hc
  have := hdollar hd
  unfold mangleChar AlikeChars
  grind

/-- Texts of such characters are mangled to one exactly if they are alike, character by character. -/
theorem map_mangleChar_eq_iff {text other : List Char} (h : ∀ c ∈ text, startsName c = true ∨ continuesName c = true)
    (h' : ∀ d ∈ other, startsName d = true ∨ continuesName d = true) :
    text.map mangleChar = other.map mangleChar ↔ List.Forall₂ AlikeChars text other := by
  induction text generalizing other with
  | nil => cases other <;> simp
  | cons c rest ih =>
    cases other with
    | nil => simp
    | cons d more =>
      obtain ⟨hc, hrest⟩ := List.forall_mem_cons.mp h
      obtain ⟨hd, hmore⟩ := List.forall_mem_cons.mp h'
      simp [mangleChar_eq_iff hc hd, ih hrest hmore]

/-- The characters of a name. -/
theorem IsName.chars {name : String} (h : IsName name) :
    ∀ c ∈ name.toList, startsName c = true ∨ continuesName c = true := by
  obtain ⟨⟨c, rest, htext, hc, hrest⟩, -⟩ := h
  rw [htext]
  exact List.forall_mem_cons.mpr ⟨Or.inl hc, fun d hd => Or.inr (hrest d hd)⟩

/-- Names are mangled to one exactly if they are alike. -/
theorem mangle_eq_iff {name other : String} (h : IsName name) (h' : IsName other) :
    mangle name = mangle other ↔ Alike name other := by
  rw [mangle, mangle, String.ofList_inj, map_mangleChar_eq_iff h.chars h'.chars, Alike]

/-! ## §3 Globals and functions -/

/-- Globals that obey the typing rules behind others are called differently from these and from each other. -/
theorem GlobalsTyped.nodup {B : List (Nat × Nat)} {F : List Function} {names : Names} {gs : List Global}
    (h : GlobalsTyped t B F names gs) : (gs.map Global.name).Nodup ∧ ∀ g ∈ gs, names.lookup g.name = none := by
  induction h with
  | nil => simp
  | @cons names g rest v _ hnew _ _ _ _ _ ih =>
    obtain ⟨hnodup, hothers⟩ := ih
    have hrest : ∀ g' ∈ rest, g'.name ≠ g.name ∧ names.lookup g'.name = none := by
      intro g' hg'
      have hlookup := hothers g' hg'
      rw [List.lookup_cons] at hlookup
      split at hlookup
      · cases hlookup
      · next hne => exact ⟨by simpa using hne, hlookup⟩
    refine ⟨?_, List.forall_mem_cons.mpr ⟨hnew, fun g' hg' => (hrest g' hg').2⟩⟩
    rw [List.map_cons, List.nodup_cons]
    refine ⟨fun hmem => ?_, hnodup⟩
    obtain ⟨g', hg', hname⟩ := List.mem_map.mp hmem
    exact (hrest g' hg').1 hname

/-- **When globals and functions share a name.** In an accepted program all globals have different names, and all
functions differ in name or arity.  Each of them has its mangled name at runtime; so two globals, or two functions, have
one runtime name exactly if their names differ in nothing but `-` for `_`. -/
theorem topLevelNames_eq_iff {source : String} (htokens : tokenize source = .ok tokens) (hparse : parse tokens = .ok p)
    (hcheck : check builtins p = .ok t) :
    ((p.globals.map Global.name).Nodup ∧
      (∀ g ∈ p.globals, (t.findVariable? g.node.id).map VariableInfo.runtimeName = some (mangle g.name)) ∧
      ∀ g ∈ p.globals, ∀ g' ∈ p.globals, (t.findVariable? g.node.id).map VariableInfo.runtimeName =
        (t.findVariable? g'.node.id).map VariableInfo.runtimeName ↔ Alike g.name g'.name) ∧
    (p.functions.map Function.key).Nodup ∧
      (∀ f ∈ p.functions, (t.findFunction? f.node.id).map FunctionInfo.runtimeName = some (mangle f.name)) ∧
      ∀ f ∈ p.functions, ∀ f' ∈ p.functions, (t.findFunction? f.node.id).map FunctionInfo.runtimeName =
        (t.findFunction? f'.node.id).map FunctionInfo.runtimeName ↔ Alike f.name f'.name := by
  have hids := nodup_ids_of_parse hparse
  have hwell := wellFormed_of_parse (form_of_mem_tokenize htokens) hparse
  have htyped := programTyped_of_check hcheck hids
  have hglobal : ∀ g ∈ p.globals,
      (t.findVariable? g.node.id).map VariableInfo.runtimeName = some (mangle g.name) := by
    intro g hg
    obtain ⟨v, hv, -, hruntime⟩ := globalName_of_check hcheck hids hg
    simp [hv, hruntime]
  have hfunction : ∀ f ∈ p.functions,
      (t.findFunction? f.node.id).map FunctionInfo.runtimeName = some (mangle f.name) := by
    intro f hf
    obtain ⟨info, hinfo, hruntime⟩ := functionName_of_check hcheck hids hf
    simp [hinfo, hruntime]
  refine ⟨⟨htyped.globals.nodup.1, hglobal, fun g hg g' hg' => ?_⟩, (List.nodup_cons.mp htyped.distinct).2, hfunction,
    fun f hf f' hf' => ?_⟩
  · rw [hglobal g hg, hglobal g' hg', Option.some.injEq]
    exact mangle_eq_iff (hwell.globals g hg).1 (hwell.globals g' hg').1
  · rw [hfunction f hf, hfunction f' hf', Option.some.injEq]
    exact mangle_eq_iff (hwell.functions f hf).1 (hwell.functions f' hf').1

/-- A program with two globals whose names are mangled to one. -/
def sharedSource : String :=
  "VAL a-b = 1; VAL a_b = 2; FUN main(): Integer DO RETURN a_b; END"

/-- Its tokens. -/
def sharedTokens : List Token :=
  [⟨.identifier, "VAL", 0⟩, ⟨.identifier, "a-b", 4⟩, ⟨.operator, "=", 8⟩, ⟨.integer, "1", 10⟩, ⟨.operator, ";", 11⟩,
    ⟨.identifier, "VAL", 13⟩, ⟨.identifier, "a_b", 17⟩, ⟨.operator, "=", 21⟩, ⟨.integer, "2", 23⟩,
    ⟨.operator, ";", 24⟩, ⟨.identifier, "FUN", 26⟩, ⟨.identifier, "main", 30⟩, ⟨.operator, "(", 34⟩,
    ⟨.operator, ")", 35⟩, ⟨.operator, ":", 36⟩, ⟨.identifier, "Integer", 38⟩, ⟨.identifier, "DO", 46⟩,
    ⟨.identifier, "RETURN", 49⟩, ⟨.identifier, "a_b", 56⟩, ⟨.operator, ";", 59⟩, ⟨.identifier, "END", 61⟩]

/-- Its tree. -/
def sharedProgram : Program where
  globals := [⟨⟨0, 0⟩, "a-b", false, none, some (.literal ⟨1, 10⟩ (.integer 1))⟩,
    ⟨⟨2, 13⟩, "a_b", false, none, some (.literal ⟨3, 23⟩ (.integer 2))⟩]
  functions := [⟨⟨4, 26⟩, "main", [], some "Integer", [.returning 49 (.variable ⟨5, 56⟩ "a_b")]⟩]

/-- What checking finds out about it. -/
def sharedTable : SideTable where
  types := [(5, .integer), (3, .integer), (1, .integer)]
  vars := [(5, ⟨"a_b", "a_b", .integer, false, false⟩), (2, ⟨"a_b", "a_b", .integer, false, false⟩),
    (0, ⟨"a-b", "a_b", .integer, false, false⟩)]
  funs := [(4, ⟨"main", "main", [], .integer⟩)]

theorem tokenize_sharedSource : tokenize sharedSource = .ok sharedTokens := by
  decide +kernel

theorem parse_sharedTokens : parse sharedTokens = .ok sharedProgram := by
  rfl

theorem check_sharedProgram : check builtins sharedProgram = .ok sharedTable := by
  cbv

/-- The names of its globals are alike, so both have one name at runtime. -/
theorem topLevelNames_eq_iff_shared :
    tokenize sharedSource = .ok sharedTokens ∧ parse sharedTokens = .ok sharedProgram ∧
      check builtins sharedProgram = .ok sharedTable ∧ Alike "a-b" "a_b" ∧
      (sharedTable.findVariable? 0).map VariableInfo.runtimeName =
        (sharedTable.findVariable? 2).map VariableInfo.runtimeName := by
  have halike : Alike "a-b" "a_b" := by
    simp [Alike, AlikeChars]
  obtain ⟨⟨-, -, hglobals⟩, -⟩ := topLevelNames_eq_iff tokenize_sharedSource parse_sharedTokens check_sharedProgram
  have heq := hglobals _ List.mem_cons_self _ (List.mem_cons_of_mem _ List.mem_cons_self)
  exact ⟨tokenize_sharedSource, parse_sharedTokens, check_sharedProgram, halike, heq.mpr halike⟩

/-- The class of that accepted program has two fields of one name. -/
theorem globals_share_field :
    tokenize sharedSource = .ok sharedTokens ∧ parse sharedTokens = .ok sharedProgram ∧
      check builtins sharedProgram = .ok sharedTable ∧
      globals sharedTable sharedProgram.globals = [⟨1, "final int a_b = 1;"⟩, ⟨1, "final int a_b = 2;"⟩, .blank] ∧
      ∃ g ∈ sharedProgram.globals, ∃ g' ∈ sharedProgram.globals, g.node.id ≠ g'.node.id ∧ g.name ≠ g'.name ∧
        ∃ v, sharedTable.findVariable? g.node.id = some v ∧ ∃ v', sharedTable.findVariable? g'.node.id = some v' ∧
          v.runtimeName = v'.runtimeName := by
  refine ⟨tokenize_sharedSource, parse_sharedTokens, check_sharedProgram, by decide +kernel, ?_⟩
  refine ⟨_, List.mem_cons_self, _, List.mem_cons_of_mem _ List.mem_cons_self, by decide, by decide, ?_⟩
  exact ⟨_, rfl, _, rfl, rfl⟩

end BlockLang
