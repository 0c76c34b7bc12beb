import BlockLang.Proofs.Grammar.WrittenLists
import BlockLang.Proofs.Run.Checked
import BlockLang.Proofs.Run.Reachable
import BlockLang.Proofs.Run.Termination
import BlockLang.Proofs.Run.Upholding

/-!
# Lists are neither copied nor resized

A list comes about where it is written, and that is the initial value of a global.  Evaluations of anything else create
no list and change the length of none, whatever they do with the lists that there are.  So at every moment of a run the
lists are told by its record alone: one for each written list whose evaluation has ended.

## Main definitions

- `Heap.lengths`: how many elements each list has.
- `Program.writtenLists`: the lists that the list globals begin with.
- `evaluatedLists`: the written lists that have been evaluated, with their values.
- `Tallies`: these are all the lists that there are.
- `Spares`: an evaluation that creates no list.
- `Tallying`: an evaluation in the course of which the lists tally, with the lists that it adds.
- `Store.ListsFrom`: all lists of a store, and all in its variables and lists, are from the evaluated ones.

## Main statement

- `lists_tally`: in a run of a parsed program, the lists are those written, one each, of their written lengths.
-/

namespace BlockLang

open Stateful

/-! ## §1 Lengths -/

/-- How many elements each list has, in the order in which the lists were created. -/
def Heap.lengths (h : Heap) : List Nat :=
  h.lists.toList.map List.length

theorem Heap.length_lengths (h : Heap) : h.lengths.length = h.lists.size := by
  simp [lengths]

theorem Heap.lengths_allocate (h : Heap) (vs : List Value) : (h.allocate vs).2.lengths = h.lengths ++ [vs.length] := by
  simp [lengths, allocate]

theorem Heap.lengths_setElement (h : Heap) (l : ListRef) (i : Nat) (v : Value) :
    (h.setElement l i v).lengths = h.lengths := by
  refine List.ext_getElem? fun k => ?_
  simp only [lengths, setElement, Array.toList_modify, List.getElem?_map, List.getElem?_modify]
  -- The list that is changed has as many elements as before.
  cases h.lists.toList[k]? with
  | none => rfl
  | some elements => by_cases hl : l = k <;> simp [hl]

/-! ## §2 Tallies -/

/-- The list that a global begins with, if it is a list global. -/
def Global.list? (g : Global) : Option Expr :=
  g.value.filter Expr.isList

/-- The lists that the globals of a program begin with, in order. -/
def Program.writtenLists (p : Program) : List Expr :=
  p.globals.filterMap Global.list?

/-- A written list with the value that it has got. -/
def Event.list? : Event → Option (Expr × Value)
  | .yields e v => if e.isList then some (e, v) else none
  | .enters _ | .begins _ | .ends _ _ | .calls _ _ _ | .declares _ _ => none

/-- The written lists whose evaluation has ended by the latest of some moments, with their values, in order. -/
def evaluatedLists : List Moment → List (Expr × Value)
  | [] => []
  | m :: earlier => evaluatedLists earlier ++ m.event.list?.toList

/-- The lists that have been evaluated are all the lists that there are: one each, in the order in which they are
written, with as many elements as are written. -/
structure Tallies (written : List Expr) (moments : List Moment) (h : Heap) : Prop where
  order : (evaluatedLists moments).map Prod.fst <+: written
  values : (evaluatedLists moments).map Prod.snd = (List.range (evaluatedLists moments).length).map Value.list
  lengths : h.lengths = (evaluatedLists moments).map fun x => x.1.children.length

theorem evaluatedLists_append {later earlier : List Moment} (h : ∀ m ∈ later, m.event.list? = none) :
    evaluatedLists (later ++ earlier) = evaluatedLists earlier := by
  induction later with
  | nil => rfl
  | cons m rest ih =>
    obtain ⟨hfirst, hrest⟩ := List.forall_mem_cons.mp h
    rw [List.cons_append, evaluatedLists, hfirst, ih hrest]
    exact List.append_nil _

/-- Only the evaluated lists and the lengths matter. -/
theorem Tallies.congr {written : List Expr} {moments moments' : List Moment} {h h' : Heap}
    (ht : Tallies written moments h) (hlists : evaluatedLists moments' = evaluatedLists moments)
    (hlengths : h'.lengths = h.lengths) : Tallies written moments' h' := by
  refine ⟨?_, ?_, ?_⟩
  · rw [hlists]
    exact ht.order
  · rw [hlists]
    exact ht.values
  · rw [hlists, hlengths]
    exact ht.lengths

/-! ## §3 Evaluations without lists -/

/-- The evaluation creates no list and keeps all lengths, from stores with known functions on. -/
abbrev Spares {α : Type} (fs : List Function) (lengths : List Nat) (x : Traced α) : Prop :=
  Upholds (fun s => s.Knows fs ∧ s.heap.lengths = lengths)
    (fun m => m.store.heap.lengths = lengths ∧ m.event.list? = none) x

namespace Spares

variable {α : Type} {fs : List Function} {lengths : List Nat} {env : Env}

theorem lasting (fs : List Function) (lengths : List Nat) :
    Store.Lasting (fun s => s.Knows fs ∧ s.heap.lengths = lengths) where
  setValue ref v h := ⟨h.1.setValue ref v, h.2⟩
  setElement _ _ _ h := ⟨h.1, (Heap.lengths_setElement ..).trans h.2⟩
  write _ h := h

theorem note {event : Event} (hevent : event.list? = none) : Spares fs lengths (Traced.note env event) :=
  Upholds.note fun _ _ h => ⟨h.2, hevent⟩

theorem watch {before : Event} {after : α → Event} {x : Traced α} (hbefore : before.list? = none)
    (hafter : ∀ a, (after a).list? = none) (hx : Spares fs lengths x) :
    Spares fs lengths (Traced.watch env before after x) :=
  Upholds.watch (fun _ _ h => ⟨h.2, hbefore⟩) (fun a _ _ h => ⟨h.2, hafter a⟩) hx

theorem define (env : Env) (node : Node) (name : String) (cell : Cell) :
    Spares fs lengths (Traced.define env node name cell) := by
  refine Upholds.define (fun s t h ht => ⟨h.1.defineVariable ht, ?_⟩) fun _ _ h => ⟨h.2, rfl⟩
  rw [Store.heap_of_updateScope? ht]
  exact h.2

theorem functions : Spares fs lengths (Traced.lift (Eval.functions fs)) := by
  refine Upholds.functions fun f hf s t h ht => ⟨h.1.defineFunction hf ht, ?_⟩
  rw [Store.heap_of_updateScope? ht]
  exact h.2

theorem inScope {body : Env → Traced α} (hbody : ∀ inner, Spares fs lengths (body inner)) :
    Spares fs lengths (Traced.inScope env body) :=
  Upholds.inScope (J := fun s => s.Knows fs ∧ s.heap.lengths = lengths) (fun _ h => ⟨h.1.openScope, h.2⟩)
    (fun _ h => ⟨h.1.closeScope, h.2⟩) fun _ _ => hbody _

/-- With `n` as fuel, evaluations of what no list is written in create none. -/
structure Everywhere (fs : List Function) (lengths : List Nat) (n : Nat) : Prop where
  expression (env : Env) (e : Expr) : e.Plain → Spares fs lengths (Traced.expression n env e)
  call (env : Env) (name : String) (arguments : List Value) (offset : Nat) :
    Spares fs lengths (Traced.call n env name arguments offset)
  statement (env : Env) (x : Statement) : x.Plain → Spares fs lengths (Traced.statement n env x)
  loop (env : Env) (condition : Expr) (body : List Statement) : condition.Plain → (∀ x ∈ body, x.Plain) →
    Spares fs lengths (Traced.loop n env condition body)

namespace Everywhere

variable {n : Nat}

theorem block (h : Everywhere fs lengths n) (env : Env) {body : List Statement} (hbody : ∀ x ∈ body, x.Plain) :
    Spares fs lengths (Traced.block (Traced.statement n) env body) :=
  inScope fun inner => .inOrder fun x hx => h.statement inner x (hbody x hx)

theorem expression_succ (h : Everywhere fs lengths n) (env : Env) {e : Expr} (he : e.Plain) :
    Spares fs lengths (Traced.expression (n + 1) env e) := by
  have hyields (v : Value) : (Event.yields e v).list? = none := by simp [Event.list?, he.isList_eq]
  apply watch rfl hyields
  have hchildren : ∀ x ∈ e.children, Spares fs lengths (Traced.expression n env x) :=
    fun x hx => h.expression env x (he.children x hx)
  cases e with
  | literal node value => exact .pure (Value.ofLiteral value)
  | group node inner => exact hchildren inner List.mem_cons_self
  | binary node op left right =>
    exact .binary op (hchildren left List.mem_cons_self) (hchildren right (by simp [Expr.children])) node.offset
  | «variable» node name => exact .bind (.reads (.resolve env name node.offset)) fun found => .pure _
  | element node name index => exact .element env name (hchildren index List.mem_cons_self) node.offset
  | call node name arguments =>
    exact .bind (.all hchildren) fun values => .bind (note rfl) fun _ => h.call env name values node.offset
  | list => cases he.isList_eq

theorem call_succ (h : Everywhere fs lengths n) (hfs : ∀ f ∈ fs, ∀ x ∈ f.body, x.Plain) (env : Env) (name : String)
    (arguments : List Value) (offset : Nat) : Spares fs lengths (Traced.call (n + 1) env name arguments offset) := by
  refine .get_bind fun s hs => ?_
  split
  next which _ => exact .builtin (lasting fs lengths) which arguments offset
  next f closure hfind =>
    -- A function that is found is one of those defined at the beginning, and no list is written in these.
    obtain ⟨which, hwhich⟩ | ⟨f', hf, -, -, closure', hf'⟩ := hs.1.found hfind
    · cases hwhich
    obtain ⟨rfl, -⟩ := Callable.defined.inj hf'
    refine inScope fun inner => .bind (.bindParameters (fun p _ v => define inner p.node p.name ⟨true, v⟩) arguments) ?_
    refine fun _ => .bind (.inOrder fun x hx => h.statement inner x (hfs f hf x hx)) fun flow => ?_
    cases flow <;> exact .pure _
  · exact .fail _
  · exact .fail _

theorem statement_succ (h : Everywhere fs lengths n) (env : Env) {x : Statement} (hx : x.Plain) :
    Spares fs lengths (Traced.statement (n + 1) env x) := by
  apply watch rfl (fun _ => rfl)
  cases x with
  | expression offset e =>
    exact .bind (.discard (h.expression env e (hx e List.mem_cons_self))) fun _ => .pure Flow.normal
  | declaration node name type value =>
    refine .bind (.optional fun e he => h.expression env e (hx e (Option.mem_toList.mpr he))) fun v => ?_
    exact .bind (define env node name ⟨true, v⟩) fun _ => .pure Flow.normal
  | assignment offset target value =>
    obtain ⟨htarget, hvalue⟩ := List.forall_mem_cons.mp hx
    have hassign := Upholds.assign (lasting fs lengths) (h.expression env value (hvalue value List.mem_cons_self)) env
      target (fun e he => h.expression env e (htarget.children e he)) offset
    exact .bind hassign fun _ => .pure Flow.normal
  | conditional offset condition onTrue onFalse =>
    obtain ⟨hcondition, hbranches⟩ := List.forall_mem_cons.mp hx
    obtain ⟨htrue, hfalse⟩ := List.forall_mem_append.mp hbranches
    refine .bind (h.expression env condition hcondition) fun test => .bind (.ofExcept _) fun holds =>
      .ite (.pure Flow.normal) (h.block env ?_)
    cases holds with
    | true => exact plain_block_iff.mp htrue
    | false => exact plain_block_iff.mp hfalse
  | switch offset condition cases =>
    obtain ⟨hcondition, hcases⟩ := List.forall_mem_cons.mp hx
    have harm : ∀ c ∈ cases, (∀ e ∈ c.value, e.Plain) ∧ ∀ x ∈ c.body, x.Plain := by
      rintro ⟨offset, value, body⟩ hc
      obtain ⟨hvalue, hbody⟩ := List.forall_mem_append.mp (plain_arms_iff.mp hcases _ hc)
      exact ⟨fun e he => hvalue e (Option.mem_toList.mpr he), plain_block_iff.mp hbody⟩
    -- Before the first arm there is no fallback, so what is selected is the body of an arm.
    refine .bind (h.expression env condition hcondition) fun subject => .select_bind subject
      (P := fun body => ∀ x ∈ body, x.Plain) (fun c hc e he => h.expression env e ((harm c hc).1 e he))
      (fun c hc => (harm c hc).2) (fun _ hnone => absurd hnone (Option.not_mem_none _)) fun selected hselected => ?_
    cases selected with
    | none => exact .pure Flow.normal
    | some body => exact h.block env (hselected body rfl)
  | loop offset condition body =>
    obtain ⟨hcondition, hbody⟩ := List.forall_mem_cons.mp hx
    exact h.loop env condition body hcondition (plain_block_iff.mp hbody)
  | returning offset value =>
    exact .bind (h.expression env value (hx value List.mem_cons_self)) fun v => .pure (Flow.returned v)

theorem loop_succ (h : Everywhere fs lengths n) (env : Env) {condition : Expr} {body : List Statement}
    (hcondition : condition.Plain) (hbody : ∀ x ∈ body, x.Plain) :
    Spares fs lengths (Traced.loop (n + 1) env condition body) := by
  refine .bind (h.expression env condition hcondition) fun test => .bind (.ofExcept _) fun holds =>
    .ite ?_ (.pure Flow.normal)
  refine .bind (h.block env hbody) fun flow => ?_
  cases flow with
  | returned v => exact .pure (Flow.returned v)
  | normal => exact h.loop env condition body hcondition hbody

end Everywhere

theorem everything (hfs : ∀ f ∈ fs, ∀ x ∈ f.body, x.Plain) (n : Nat) : Everywhere fs lengths n := by
  induction n with
  | zero => exact ⟨fun _ _ _ => .stop _, fun _ _ _ _ => .stop _, fun _ _ _ => .stop _, fun _ _ _ _ _ => .stop _⟩
  | succ n ih =>
    exact ⟨fun env _ => ih.expression_succ env, ih.call_succ hfs, fun env _ => ih.statement_succ env,
      fun env _ _ => ih.loop_succ env⟩

end Spares

/-- The evaluation of several expressions yields as many values. -/
theorem Traced.length_of_all {eval : Expr → Traced Value} {es : List Expr} {vs : List Value} {r r' : Recorder}
    (h : Traced.all eval es r = .ok vs r') : vs.length = es.length := by
  induction es generalizing vs r with
  | nil =>
    cases h
    rfl
  | cons e rest ih =>
    obtain ⟨v, r₁, -, h₁⟩ := bind_eq_ok.mp h
    obtain ⟨ws, r₂, hrest, h₂⟩ := bind_eq_ok.mp h₁
    cases h₂
    exact congrArg Nat.succ (ih hrest)

/-! ## §4 Programs -/

/-- At each of the moments, the lists tally with the moments up to it. -/
def Tallied (written : List Expr) : List Moment → Prop
  | [] => True
  | m :: earlier => Tallies written (m :: earlier) m.store.heap ∧ Tallied written earlier

theorem Tallied.at {written : List Expr} {later earlier : List Moment} {m : Moment}
    (h : Tallied written (later ++ m :: earlier)) : Tallies written (m :: earlier) m.store.heap := by
  induction later with
  | nil => exact h.1
  | cons _ rest ih => exact ih h.2

theorem Tallied.append {written : List Expr} {later earlier : List Moment} {heap : Heap} (h : Tallied written earlier)
    (hnow : Tallies written earlier heap)
    (hlater : ∀ m ∈ later, m.store.heap.lengths = heap.lengths ∧ m.event.list? = none) :
    Tallied written (later ++ earlier) := by
  induction later with
  | nil => exact h
  | cons m rest ih =>
    have hlists : evaluatedLists (m :: rest ++ earlier) = evaluatedLists earlier :=
      evaluatedLists_append fun m hm => (hlater m hm).2
    exact ⟨hnow.congr hlists (hlater m List.mem_cons_self).1, ih (List.forall_mem_cons.mp hlater).2⟩

/-- The lists tally with the moments, now and at each of them, and those that have been evaluated are known. -/
structure Recorder.Tallies (fs : List Function) (written evaluated : List Expr) (r : Recorder) : Prop where
  knows : r.store.Knows fs
  evaluated : (evaluatedLists r.moments).map Prod.fst = evaluated
  now : BlockLang.Tallies written r.moments r.store.heap
  always : Tallied written r.moments

/-- Where the lists tally, they do so after the evaluation, however it ends.  If it yields something, this is of some
kind, and it is known which lists have been evaluated by then. -/
def Tallying {α : Type} (fs : List Function) (written before after : List Expr) (Q : α → Prop) (x : Traced α) : Prop :=
  ∀ r : Recorder, r.Tallies fs written before →
    match x r with
    | .ok a r' => r'.Tallies fs written after ∧ Q a
    | .error _ r' => ∃ evaluated, r'.Tallies fs written evaluated

namespace Tallying

variable {α β : Type} {fs : List Function} {written before between after : List Expr} {Q : α → Prop} {R : β → Prop}
variable {x : Traced α} {f : α → Traced β} {env : Env}

/-- Where no list is evaluated, nothing is added. -/
theorem of_spares (hx : ∀ lengths, Spares fs lengths x) (hQ : ∀ r a r', x r = .ok a r' → Q a) :
    Tallying fs written before before Q x := by
  intro r h
  obtain ⟨⟨hknows, hlengths⟩, later, hlater, hM⟩ := hx r.store.heap.lengths r ⟨h.knows, rfl⟩
  have hlists : evaluatedLists (state (x r)).moments = evaluatedLists r.moments := by
    rw [hlater]
    exact evaluatedLists_append fun m hm => (hM m hm).2
  have hend : (state (x r)).Tallies fs written before := by
    refine ⟨hknows, by rw [hlists, h.evaluated], h.now.congr hlists hlengths, ?_⟩
    rw [hlater]
    exact h.always.append h.now hM
  cases hrun : x r with
  | ok a r' =>
    rw [hrun] at hend
    exact ⟨hend, hQ r a r' hrun⟩
  | error e r' =>
    rw [hrun] at hend
    exact ⟨before, hend⟩

theorem bind (hx : Tallying fs written before between Q x)
    (hf : ∀ a, Q a → Tallying fs written between after R (f a)) : Tallying fs written before after R (x >>= f) := by
  intro r h
  have hend := hx r h
  cases hrun : x r with
  | ok a r' =>
    rw [hrun] at hend
    rw [bind_of_ok hrun]
    exact hf a hend.2 r' hend.1
  | error e r' =>
    rw [hrun] at hend
    rw [bind_of_error hrun]
    exact hend

/-- A list that is written next is the next list, and the moment that notes its value accounts for it. -/
theorem newList {node : Node} {es : List Expr} {values : List Value} (hnext : before ++ [.list node es] <+: written)
    (hlength : values.length = es.length) :
    Tallying fs written before (before ++ [.list node es]) (fun _ => True) (do
      let v ← Traced.lift (Eval.newList values)
      Traced.note env (.yields (.list node es) v)
      return v) := by
  intro r h
  let m : Moment := ⟨env, (r.store.allocate values).2, r.origins,
    .yields (.list node es) (.list (r.store.allocate values).1)⟩
  have hlists : evaluatedLists (m :: r.moments) =
      evaluatedLists r.moments ++ [(.list node es, .list r.store.heap.lists.size)] := rfl
  have hevaluated : (evaluatedLists (m :: r.moments)).map Prod.fst = before ++ [.list node es] := by
    rw [hlists, List.map_append, h.evaluated]
    rfl
  -- The new list is numbered by the lists before it, and these are the evaluated ones.
  have hsize : r.store.heap.lists.size = (evaluatedLists r.moments).length := by
    rw [← Heap.length_lengths, h.now.lengths, List.length_map]
  have hnow : Tallies written (m :: r.moments) m.store.heap := by
    refine ⟨hevaluated ▸ hnext, ?_, ?_⟩
    · rw [hlists, List.map_append, List.length_append, h.now.values, hsize]
      simp [List.range_succ]
    · rw [hlists, List.map_append, ← h.now.lengths]
      exact (Heap.lengths_allocate ..).trans (by rw [hlength]; rfl)
  exact ⟨⟨h.knows, hevaluated, hnow, hnow, h.always⟩, trivial⟩

/-- The evaluation of a list that is written next leads to a list of its own. -/
theorem list (hfs : ∀ f ∈ fs, ∀ x ∈ f.body, x.Plain) {node : Node} {es : List Expr} (hes : ∀ e ∈ es, e.Plain)
    (hnext : before ++ [.list node es] <+: written) (n : Nat) :
    Tallying fs written before (before ++ [.list node es]) (fun _ => True)
      (Traced.expression n env (.list node es)) := by
  cases n with
  | zero => exact fun r h => ⟨before, h⟩
  | succ n =>
    have hnote : Tallying fs written before before (fun _ => True) (Traced.note env (.enters (.list node es))) :=
      of_spares (fun _ => Spares.note rfl) fun _ _ _ _ => trivial
    have hall : Tallying fs written before before (fun values => values.length = es.length)
        (Traced.all (Traced.expression n env) es) :=
      of_spares (fun _ => .all fun e he => (Spares.everything hfs n).expression env e (hes e he))
        fun _ _ _ => Traced.length_of_all
    -- The elements create no list; what remains is the list itself and the moment at which its value is noted.
    simp only [Traced.expression, Traced.watch, bind_assoc]
    exact hnote.bind fun _ _ => hall.bind fun values hlength => newList hnext hlength

/-- The initial value of a global leads to a list if it is a list. -/
theorem initial (hfs : ∀ f ∈ fs, ∀ x ∈ f.body, x.Plain) {g : Global} (hg : ∀ e ∈ g.value, ∀ x ∈ e.children, x.Plain)
    (hnext : before ++ g.list?.toList <+: written) (fuel : Nat) :
    Tallying fs written before (before ++ g.list?.toList) (fun _ => True)
      (Traced.optional (Traced.expression fuel .globals) g.value) := by
  unfold Global.list? at hnext ⊢
  cases hvalue : g.value with
  | none =>
    rw [hvalue] at hnext
    exact (List.append_nil before).symm ▸ of_spares (fun _ => .pure Value.nil) fun _ _ _ _ => trivial
  | some e =>
    rw [hvalue] at hnext
    have hchildren := hg e hvalue
    cases hlist : e.isList with
    | false =>
      have hplain : e.Plain := .of_children hlist hchildren
      have hnone : (Option.filter Expr.isList (some e)).toList = [] := by simp [hlist]
      rw [hnone, List.append_nil]
      exact of_spares (fun _ => (Spares.everything hfs fuel).expression .globals e hplain) fun _ _ _ _ => trivial
    | true =>
      obtain ⟨node, es, rfl⟩ : ∃ node es, e = .list node es := by
        cases e <;> cases hlist
        exact ⟨_, _, rfl⟩
      exact list hfs hchildren hnext fuel

/-- The globals are evaluated one after the other, and so are the lists that they begin with. -/
theorem globals (hfs : ∀ f ∈ fs, ∀ x ∈ f.body, x.Plain) (fuel : Nat) {gs : List Global}
    (hgs : ∀ g ∈ gs, ∀ e ∈ g.value, ∀ x ∈ e.children, x.Plain) (hrest : before ++ gs.filterMap Global.list? = written) :
    Tallying fs written before written (fun _ => True) (Traced.globals fuel gs) := by
  induction gs generalizing before with
  | nil =>
    rw [List.filterMap_nil, List.append_nil] at hrest
    exact fun r h => ⟨hrest ▸ h, trivial⟩
  | cons g rest ih =>
    obtain ⟨hfirst, hlater⟩ := List.forall_mem_cons.mp hgs
    have hsplit : (g :: rest).filterMap Global.list? = g.list?.toList ++ rest.filterMap Global.list? := by
      cases hlist : g.list? <;> simp [hlist]
    rw [hsplit, ← List.append_assoc] at hrest
    refine (initial hfs hfirst ⟨_, hrest⟩ fuel).bind fun v _ => ?_
    exact (of_spares (fun _ => Spares.define .globals g.node g.name ⟨g.mutable, v⟩) fun _ _ _ _ => trivial).bind
      fun _ _ => ih hlater hrest

/-- After the globals no list is evaluated any more. -/
theorem program {p : Program} (hp : p.Flat) (fuel : Nat) :
    Tallying p.functions p.writtenLists [] p.writtenLists (fun _ => True) (Traced.program fuel p) := by
  have hglobals : Tallying p.functions p.writtenLists [] p.writtenLists (fun _ => True)
      (Traced.globals fuel p.globals) := globals hp.functions fuel hp.globals (List.nil_append _)
  have hrest (lengths : List Nat) : Spares p.functions lengths (do
      Traced.lift (Eval.functions p.functions)
      Traced.call fuel .globals "main" [] (Eval.mainOffset p)) :=
    .bind Spares.functions fun _ => (Spares.everything hp.functions fuel).call .globals "main" [] _
  exact hglobals.bind fun _ _ => of_spares hrest fun _ _ _ _ => trivial

end Tallying

/-- The lists of a run of a flat program tally, at all moments and in the end. -/
theorem Program.Flat.tallies {p : Program} (hp : p.Flat) (fuel : Nat) (limit : Option Nat) :
    ∃ evaluated, (p.record fuel limit).Tallies p.functions p.writtenLists evaluated := by
  have hinitial : Recorder.Tallies p.functions p.writtenLists [] (.initial limit) :=
    ⟨.initial p.functions limit, rfl, ⟨List.nil_prefix, rfl, rfl⟩, trivial⟩
  have hend := Tallying.program hp fuel (.initial limit) hinitial
  unfold Program.record
  cases hrun : Traced.program fuel p (.initial limit) with
  | ok v r =>
    rw [hrun] at hend
    exact ⟨p.writtenLists, hend.1⟩
  | error e r =>
    rw [hrun] at hend
    exact hend

/-! ## §5 Values -/

/-- If the value is a list, it is one of the lists that have been evaluated. -/
def Value.From (moments : List Moment) (v : Value) : Prop :=
  ∀ l, v = .list l → ∃ e, (e, v) ∈ evaluatedLists moments

theorem Tallies.from {written : List Expr} {moments : List Moment} {h : Heap} (ht : Tallies written moments h)
    {v : Value} (hv : v.Below h.lists.size) : v.From moments := by
  rintro l rfl
  -- The lists are numbered without gaps, so one of them that exists has been evaluated.
  have hl : l < (evaluatedLists moments).length := by
    have hsize := hv l rfl
    rwa [← Heap.length_lengths, ht.lengths, List.length_map] at hsize
  have hmem : Value.list l ∈ (evaluatedLists moments).map Prod.snd := by
    rw [ht.values]
    exact List.mem_map_of_mem (List.mem_range.mpr hl)
  obtain ⟨⟨e, v⟩, hmem, rfl⟩ := List.mem_map.mp hmem
  exact ⟨e, hmem⟩

/-- The value that an expression yields or a statement returns. -/
def Event.value? : Event → Option Value
  | .yields _ v | .ends _ (.returned v) => some v
  | .ends _ .normal | .enters _ | .begins _ | .calls _ _ _ | .declares _ _ => none

theorem Event.Fits.has {event : Event} {s : Store} (h : event.Fits s) {v : Value} (hv : v ∈ event.value?) :
    s.Has v := by
  cases event with
  | yields e w =>
    cases hv
    exact h
  | ends x flow =>
    cases flow with
    | normal => cases hv
    | returned w =>
      cases hv
      exact h
  | enters | begins | calls | declares => cases hv

/-- Of the lists that a program writes, those that have been evaluated are all the lists of the store, and there is no
other list in a variable or in a list. -/
structure Store.ListsFrom (s : Store) (written : List Expr) (moments : List Moment) : Prop where
  tallies : Tallies written moments s.heap
  cells : s.Holding (Value.From moments)
  elements : ∀ l, ∀ v ∈ s.heap.elements l, v.From moments

/-- In a regular store, no value refers to a list that has not been created. -/
theorem Tallies.listsFrom {s : Store} {written : List Expr} {moments : List Moment}
    (ht : Tallies written moments s.heap) (hs : s.Regular) : s.ListsFrom written moments where
  tallies := ht
  cells scope frame hframe x hx := ht.from (hs.cells scope frame hframe x hx)
  elements l v hv := ht.from (hs.heap.closed l v hv)

/-- **Lists are neither copied nor resized.** At every moment of a run of a parsed program, checked or not, and at its
end, the lists of the store are those that the evaluated list globals have created, one for each, and each has as many
elements as were written.  A list in a variable or in a list is one of them, and so is a list that an expression
yields, be it to print, pass, assign or store it, or that a statement or the program returns. -/
theorem lists_tally {tokens : List Token} {p : Program} (h : parse tokens = .ok p) (fuel : Nat) (limit : Option Nat) :
    (∀ later m earlier, (p.record fuel limit).moments = later ++ m :: earlier →
      m.store.ListsFrom p.writtenLists (m :: earlier) ∧ ∀ v ∈ m.event.value?, v.From (m :: earlier)) ∧
    (state (Eval.program fuel p (.initial limit))).ListsFrom p.writtenLists (p.record fuel limit).moments ∧
    ∀ v s, Eval.program fuel p (.initial limit) = .ok v s → v.From (p.record fuel limit).moments := by
  obtain ⟨_, hrun⟩ := (flat_of_parse h).tallies fuel limit
  have hend := p.record_store fuel limit
  refine ⟨fun later m earlier hsplit => ?_, ?_, fun v s hresult => ?_⟩
  · have hm : m ∈ (p.record fuel limit).moments := by simp [hsplit]
    have hnow : Tallies p.writtenLists (m :: earlier) m.store.heap := (hsplit ▸ hrun.always).at
    -- Values refer to no lists but those of the heap, and these tally.
    refine ⟨hnow.listsFrom (Store.Reachable.run p fuel limit hm).regular, fun v hv => ?_⟩
    exact hnow.from ((Program.fits_of_moment hm).has hv)
  · rw [← hend]
    exact hrun.now.listsFrom (Store.Reachable.ended p fuel limit).regular
  · have hhas := (Proceeds.program fuel p).of_erases (.initial limit) (Erases.program fuel p)
    rw [hresult] at hend hhas
    have hstore : (p.record fuel limit).store = s := hend
    exact hrun.now.from (hstore ▸ hhas.2)

/-- A program that gives a list a second name and changes it through that has one list of one element in the end. -/
theorem lists_tally_alias :
    parse aliasTokens = .ok aliasProgram ∧
      (state (Eval.program 20 aliasProgram (.initial none))).ListsFrom aliasProgram.writtenLists
        (aliasProgram.record 20 none).moments ∧
      aliasProgram.writtenLists = [.list ⟨1, 18⟩ [.literal ⟨2, 19⟩ (.integer 1)]] ∧
      (evaluatedLists (aliasProgram.record 20 none).moments).map Prod.snd = [.list 0] ∧
      (state (Eval.program 20 aliasProgram (.initial none))).heap.lengths = [1] := by
  have hrun := lists_tally parse_aliasTokens 20 none
  exact ⟨parse_aliasTokens, hrun.2.1, rfl, by decide +kernel, by decide +kernel⟩

end BlockLang
