import BlockLang.Proofs.Java.Image
import BlockLang.Proofs.Typing.RuntimeNames

/-!
# The words of a program

A name of a program is mangled to a word of Java, and so is the name with a suffix that a local gets.  Checking hands
out no other names, and what it records of an expression has been found in its scope; so all runtime names are words.

## Main definitions

- `Scope.Worded`, `SideTable.Worded`: all runtime names are words.
- `Writable`: the names and expressions that the grammar can write.

## Main statement

- `worded_of_check`: the runtime names of an accepted program are words.
-/

namespace BlockLang

open Java Stateful

/-! ## §1 Names become words -/

theorem isWordChar_mangleChar {c : Char} (h : startsName c = true ∨ continuesName c = true) :
    isWordChar (mangleChar c) = true := by
  unfold mangleChar
  split_ifs with hat hminus
  · decide
  · decide
  · simp only [startsName, continuesName, Bool.or_eq_true, decide_eq_true_eq, hat, hminus, or_false] at h
    simp only [isWordChar, Bool.or_eq_true, decide_eq_true_eq]
    rcases h with halpha | halnum | hline
    · simp [Char.isAlphanum, halpha]
    · simp [halnum]
    · simp [hline]

/-- The mangled form of a name is a word. -/
theorem isWord_mangle {name : String} (h : IsName name) : IsWord (mangle name).toList := by
  obtain ⟨⟨c, rest, htext, hc, hrest⟩, -⟩ := h
  rw [mangle, String.toList_ofList, htext, List.map_cons]
  refine ⟨List.cons_ne_nil _ _, List.forall_mem_cons.mpr ⟨isWordChar_mangleChar (Or.inl hc), ?_⟩⟩
  exact List.forall_mem_map.mpr fun d hd => isWordChar_mangleChar (Or.inr (hrest d hd))

/-- So is that form with a suffix. -/
theorem isWord_candidate {name : String} (h : IsName name) (k : Nat) :
    IsWord (LocalNames.candidate (mangle name) k).toList := by
  unfold LocalNames.candidate
  split_ifs
  · exact isWord_mangle h
  · rw [String.toList_append, String.toList_append, List.append_assoc]
    refine (isWord_mangle h).append (List.forall_mem_append.mpr ⟨List.all_eq_true.mp (by decide), fun c hc => ?_⟩)
    rw [Nat.toString_eq_ofList_toDigits, String.toList_ofList] at hc
    exact (isWord_toDigits k).2 c hc

/-! ## §2 Scopes of words -/

/-- Every variable and every function of a scope has a word for its runtime name. -/
structure Scope.Worded (scope : Scope) : Prop where
  vars : ∀ frame ∈ scope.frames, ∀ x ∈ frame.vars, IsWord x.2.runtimeName.toList
  funs : ∀ frame ∈ scope.frames, ∀ x ∈ frame.funs, IsWord x.2.runtimeName.toList

namespace Scope.Worded

variable {scope scope' : Scope}

theorem push (h : scope.Worded) : scope.push.Worded :=
  ⟨List.forall_mem_cons.mpr ⟨List.forall_mem_nil _, h.vars⟩, List.forall_mem_cons.mpr ⟨List.forall_mem_nil _, h.funs⟩⟩

theorem pop (h : scope.Worded) : scope.pop.Worded :=
  ⟨fun frame hframe => h.vars frame (scope.frames_pop_subset hframe),
    fun frame hframe => h.funs frame (scope.frames_pop_subset hframe)⟩

theorem defineVariable? (h : scope.Worded) {v : VariableInfo} (hv : IsWord v.runtimeName.toList)
    (hdefine : scope.defineVariable? v = some scope') : scope'.Worded := by
  obtain ⟨frame, hframe, frame', hchange, hframes⟩ := frames_of_updateInnermost? hdefine
  obtain ⟨-, rfl⟩ := Frame.defineVariable?_eq_some.mp hchange
  refine ⟨fun x hx => ?_, fun x hx => ?_⟩
  · rcases hframes x hx with rfl | hx
    · exact List.forall_mem_cons.mpr ⟨hv, h.vars frame hframe⟩
    · exact h.vars x hx
  · rcases hframes x hx with rfl | hx
    · exact h.funs frame hframe
    · exact h.funs x hx

theorem defineFunction? (h : scope.Worded) {info : FunctionInfo} (hinfo : IsWord info.runtimeName.toList)
    (hdefine : scope.defineFunction? info = some scope') : scope'.Worded := by
  obtain ⟨frame, hframe, frame', hchange, hframes⟩ := frames_of_updateInnermost? hdefine
  obtain ⟨-, rfl⟩ := Frame.defineFunction?_eq_some.mp hchange
  refine ⟨fun x hx => ?_, fun x hx => ?_⟩
  · rcases hframes x hx with rfl | hx
    · exact h.vars frame hframe
    · exact h.vars x hx
  · rcases hframes x hx with rfl | hx
    · exact List.forall_mem_cons.mpr ⟨hinfo, h.funs frame hframe⟩
    · exact h.funs x hx

theorem findVariable? (h : scope.Worded) {name : String} {v : VariableInfo}
    (hfind : scope.findVariable? name = some v) : IsWord v.runtimeName.toList := by
  obtain ⟨frame, hframe, hlookup⟩ := List.exists_of_findSome?_eq_some hfind
  exact h.vars frame hframe _ (mem_of_lookup hlookup)

theorem findFunction? (h : scope.Worded) {name : String} {arity : Nat} {info : FunctionInfo}
    (hfind : scope.findFunction? name arity = some info) : IsWord info.runtimeName.toList := by
  obtain ⟨frame, hframe, hlookup⟩ := List.exists_of_findSome?_eq_some hfind
  exact h.funs frame hframe _ (mem_of_lookup hlookup)

end Scope.Worded

/-- The builtin has a word for its name. -/
theorem worded_builtins : (CheckerState.withFunctions builtins).scope.Worded := by
  have hframes : (CheckerState.withFunctions builtins).scope.frames =
      [⟨[], [(("print", 1), Builtin.print.info)]⟩] := rfl
  refine ⟨?_, ?_⟩ <;> rw [hframes]
  · simp
  · exact List.forall_mem_singleton.mpr (List.forall_mem_singleton.mpr (by decide))

/-! ## §3 Tables of words -/

/-- All runtime names of a side table are words. -/
structure SideTable.Worded (t : SideTable) : Prop where
  vars : ∀ x ∈ t.vars, IsWord x.2.runtimeName.toList
  funs : ∀ x ∈ t.funs, IsWord x.2.runtimeName.toList

namespace SideTable.Worded

variable {t : SideTable}

theorem setVariable (h : t.Worded) (id : Nat) {v : VariableInfo} (hv : IsWord v.runtimeName.toList) :
    (t.setVariable id v).Worded :=
  ⟨List.forall_mem_cons.mpr ⟨hv, h.vars⟩, h.funs⟩

theorem setFunction (h : t.Worded) (id : Nat) {f : FunctionInfo} (hf : IsWord f.runtimeName.toList) :
    (t.setFunction id f).Worded :=
  ⟨h.vars, List.forall_mem_cons.mpr ⟨hf, h.funs⟩⟩

/-- A variable is written as a word, also where the mangled name has to do. -/
theorem variableName (h : t.Worded) (id : Nat) {name : String} (hname : IsName name) :
    IsWord (Java.variableName t id name).toList := by
  unfold Java.variableName
  cases hfind : t.findVariable? id with
  | none => exact isWord_mangle hname
  | some v => exact h.vars _ (mem_of_lookup hfind)

theorem functionName (h : t.Worded) (id : Nat) {name : String} (hname : IsName name) :
    IsWord (Java.functionName t id name).toList := by
  unfold Java.functionName
  cases hfind : t.findFunction? id with
  | none => exact isWord_mangle hname
  | some f => exact h.funs _ (mem_of_lookup hfind)

end SideTable.Worded

namespace Checker

variable {s s' : CheckerState}

/-- Expressions are looked up in the scope, so what is recorded of them are words of the scope. -/
theorem worded_of_records (h : Records s s') (hscope : s.scope.Worded) (htable : s.table.Worded) : s'.table.Worded := by
  induction h with
  | refl => exact htable
  | type _ _ _ ih => exact ⟨ih.vars, ih.funs⟩
  | «variable» id hrecords hfind ih =>
    rw [hrecords.scope] at hfind
    exact ih.setVariable id (hscope.findVariable? hfind)
  | function id hrecords hfind ih =>
    rw [hrecords.scope] at hfind
    exact ih.setFunction id (hscope.findFunction? hfind)

/-- A walk past names leaves only words behind. -/
theorem worded_of_walk {locals : Names} {es : List Expr} (h : Walk locals es s s') (hlocals : ∀ x ∈ locals, IsName x.1)
    (hscope : s.scope.Worded) (htable : s.table.Worded) : s'.scope.Worded ∧ s'.table.Worded := by
  induction h with
  | stay => exact ⟨hscope, htable⟩
  | @check e _ _ _ hcheck =>
    have hrecords := records_of_expression e hcheck
    exact ⟨hrecords.scope ▸ hscope, worded_of_records hrecords hscope htable⟩
  | @declare s scope node name τ list hdefine =>
    obtain ⟨k, -, hk, -⟩ := s.locals.fresh_spec name
    have hword : IsWord (localInfo s name τ list).runtimeName.toList := by
      rw [localInfo, hk]
      exact isWord_candidate (hlocals (name, node.id) List.mem_cons_self) k
    exact ⟨hscope.defineVariable? hword hdefine, htable.setVariable node.id hword⟩
  | block _ ih =>
    obtain ⟨hscope', htable'⟩ := ih hlocals hscope.push htable
    exact ⟨hscope'.pop, htable'⟩
  | append _ _ ih ih' =>
    obtain ⟨hfirst, hrest⟩ := List.forall_mem_append.mp hlocals
    obtain ⟨hscope', htable'⟩ := ih hfirst hscope htable
    exact ih' hrest hscope' htable'

theorem worded_of_globals {gs : List Global} {u : Unit} (h : globals gs s = .ok u s') (hnames : ∀ g ∈ gs, IsName g.name)
    (hscope : s.scope.Worded) (htable : s.table.Worded) : s'.scope.Worded ∧ s'.table.Worded := by
  induction gs generalizing s with
  | nil =>
    cases h
    exact ⟨hscope, htable⟩
  | cons g rest ih =>
    rw [globals] at h
    obtain ⟨_, s₁, hfirst, hrest⟩ := bind_eq_ok.mp h
    obtain ⟨s₂, info, scope, -, hruntime, hrecords, -, hdefine, rfl⟩ := records_of_global hfirst
    obtain ⟨hname, hothers⟩ := List.forall_mem_cons.mp hnames
    have hscope₂ : s₂.scope.Worded := hrecords.scope ▸ hscope
    have hword : IsWord info.runtimeName.toList := by
      rw [hruntime]
      exact isWord_mangle hname
    refine ih hrest hothers (hscope₂.defineVariable? hword hdefine) ?_
    exact (worded_of_records hrecords hscope htable).setVariable g.node.id hword

theorem worded_of_functions {fs : List Function} {u : Unit} (h : functions fs s = .ok u s')
    (hnames : ∀ f ∈ fs, IsName f.name ∧ ∀ x ∈ f.locals, IsName x.1) (hscope : s.scope.Worded)
    (htable : s.table.Worded) : s'.table.Worded := by
  induction fs generalizing s with
  | nil =>
    cases h
    exact htable
  | cons f rest ih =>
    rw [functions] at h
    obtain ⟨_, s₁, hfirst, hrest⟩ := bind_eq_ok.mp h
    obtain ⟨info, scope, hruntime, hdefine, hwalk⟩ := walk_of_function hfirst
    obtain ⟨⟨hname, hlocals⟩, hothers⟩ := List.forall_mem_cons.mp hnames
    have hword : IsWord info.runtimeName.toList := by
      rw [hruntime]
      exact isWord_mangle hname
    have hdefined := hscope.defineFunction? hword hdefine
    obtain ⟨hscope', htable'⟩ := worded_of_walk hwalk hlocals hdefined (htable.setFunction f.node.id hword)
    exact ih hrest hothers hscope' htable'

end Checker

/-! ## §4 Written names and expressions -/

/-- Names and expressions that the grammar can write. -/
structure Writable (locals : Names) (es : List Expr) : Prop where
  names : ∀ x ∈ locals, IsName x.1
  expressions : ∀ e ∈ es, e.WellFormed

namespace Writable

variable {locals more : Names} {es fs : List Expr}

theorem nil : Writable [] [] :=
  ⟨List.forall_mem_nil _, List.forall_mem_nil _⟩

theorem cons {e : Expr} (he : e.WellFormed) (h : Writable locals es) : Writable locals (e :: es) :=
  ⟨h.names, List.forall_mem_cons.mpr ⟨he, h.expressions⟩⟩

theorem append (h : Writable locals es) (h' : Writable more fs) : Writable (locals ++ more) (es ++ fs) :=
  ⟨List.forall_mem_append.mpr ⟨h.names, h'.names⟩, List.forall_mem_append.mpr ⟨h.expressions, h'.expressions⟩⟩

theorem option {value : Option Expr} (h : ∀ e ∈ value, e.WellFormed) : Writable [] value.toList :=
  ⟨List.forall_mem_nil _, fun e he => h e (Option.mem_toList.mp he)⟩

mutual

/-- The locals and expressions of a statement that the grammar can write. -/
theorem statement : ∀ {st : Statement}, st.WellFormed → Writable st.locals st.expressions
  | .expression _ _, h | .returning _ _, h => cons h nil
  | .declaration _ _ _ _, ⟨hname, _, hvalue⟩ => ⟨List.forall_mem_singleton.mpr hname, (option hvalue).expressions⟩
  | .assignment _ _ _, ⟨hreceiver, hvalue⟩ => cons hreceiver (cons hvalue nil)
  | .conditional _ _ _ _, ⟨hcondition, _, htrue, hfalse⟩ => cons hcondition (append (block htrue) (block hfalse))
  | .switch _ _ _, ⟨hsubject, harms⟩ => cons hsubject (arms harms)
  | .loop _ _ _, ⟨hcondition, _, hbody⟩ => cons hcondition (block hbody)

theorem block : ∀ {body : List Statement}, AllWellFormed body → Writable (blockLocals body) (blockExpressions body)
  | [], _ => nil
  | _ :: _, ⟨hfirst, hrest⟩ => append (statement hfirst) (block hrest)

theorem arm : ∀ {c : Case}, c.WellFormed → Writable c.locals c.expressions
  | .mk _ _ _, ⟨hvalue, _, hbody⟩ => append (option hvalue) (block hbody)

theorem arms : ∀ {cs : List Case}, ArmsWellFormed cs → Writable (armLocals cs) (armExpressions cs)
  | [], _ => nil
  -- The last arm is the one with no arms behind it.
  | _ :: [], ⟨hlast, _⟩ => append (arm hlast) nil
  | _ :: _ :: _, ⟨hfirst, hrest⟩ => append (arm hfirst) (arms (hrest.resolve_left nofun).2)

end

theorem function {f : Function} (h : f.WellFormed) : Writable f.locals (blockExpressions f.body) := by
  obtain ⟨-, hparameters, -, -, hbody⟩ := h
  have hnames : Writable (f.parameters.map fun p => (p.name, p.node.id)) [] :=
    ⟨List.forall_mem_map.mpr fun p hp => (hparameters p hp).1, List.forall_mem_nil _⟩
  exact append hnames (block hbody)

end Writable

/-! ## §5 Programs -/

/-- The runtime names of an accepted program are words. -/
theorem worded_of_check {p : Program} {t : SideTable} (hcheck : check builtins p = .ok t) (hp : p.WellFormed) :
    t.Worded := by
  obtain ⟨s₁, s₂, hglobals, hfunctions, rfl, -⟩ := runs_of_check hcheck
  have hempty : (CheckerState.withFunctions builtins).table.Worded := ⟨List.forall_mem_nil _, List.forall_mem_nil _⟩
  obtain ⟨hscope, htable⟩ :=
    Checker.worded_of_globals hglobals (fun g hg => (hp.globals g hg).1) worded_builtins hempty
  refine Checker.worded_of_functions hfunctions (fun f hf => ⟨(hp.functions f hf).1, ?_⟩) hscope htable
  exact (Writable.function (hp.functions f hf)).names

end BlockLang
