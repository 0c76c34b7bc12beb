import BlockLang.Proofs.Run.Erasure
import BlockLang.Proofs.Run.Outcomes

/-!
# A full sink cuts a run short

A run whose sink takes at most `n` bytes is compared with the run of the same program whose sink takes everything.  As
long as no more than `n` bytes are written, the limit is all that differs between their states.  The print that exceeds
the limit fails, and nothing but the closing of scopes happens after it: no later moment of the unlimited run is a
moment of the limited one.

The comparison is one of recorded runs, since the record tells the failing print: it is the last moment of the limited
run.  Most steps do not look at the sink at all (`Eval.Quiet`); printing is the one that does.

## Main definitions

- `Truncated`: what a limited evaluation has to do with the unlimited one.
- `Moment.Exhausts`: a moment at which a print is about to exceed the limit.

## Main statement

- `limited_run_truncated`: a limited run is the unlimited one up to the print that exceeds the limit.
-/

namespace BlockLang

open Stateful

/-! ## §1 Sinks -/

namespace Sink

/-- The sink with a limit. -/
def limited (n : Nat) (s : Sink) : Sink := { s with limit := some n }

variable {s : Sink} {n : Nat}

/-- Without a limit everything is taken. -/
theorem write_of_unlimited (h : s.limit = none) (text : String) :
    s.write text = (true, { s with written := s.written ++ text.toUTF8 }) := by
  simp only [write, room, h, ByteArray.extract_zero_size, decide_true]

/-- With a limit everything is taken that does not exceed it. -/
theorem write_limited_of_le {text : String} (h : (s.written ++ text.toUTF8).size ≤ n) :
    (s.limited n).write text = (true, limited n { s with written := s.written ++ text.toUTF8 }) := by
  rw [ByteArray.size_append] at h
  have hroom : min text.toUTF8.size (n - s.written.size) = text.toUTF8.size := by omega
  simp only [write, room, limited, hroom, ByteArray.extract_zero_size, decide_true]

/-- What exceeds the limit is cut off at the limit. -/
theorem write_limited_of_lt {text : String} (hfits : s.written.size ≤ n) (h : n < (s.written ++ text.toUTF8).size) :
    (s.limited n).write text = (false, limited n { s with written := (s.written ++ text.toUTF8).extract 0 n }) := by
  rw [ByteArray.size_append] at h
  have hroom : min text.toUTF8.size (n - s.written.size) = n - s.written.size := by omega
  have hall : s.written.extract 0 n = s.written := by
    rw [← Nat.max_eq_left hfits, ByteArray.extract_zero_max_size]
  have hless : n - s.written.size ≠ text.toUTF8.size := by omega
  simp only [write, room, limited, hroom, hless, decide_false, ByteArray.extract_append, hall, Nat.zero_sub]

end Sink

namespace Store

/-- The store with another sink. -/
def withSink (sink : Sink) (s : Store) : Store := { s with sink := sink }

/-- The store with a limit on the output. -/
def limited (n : Nat) (s : Store) : Store := s.withSink (s.sink.limited n)

end Store

/-! ## §2 Steps that do not look at the sink -/

namespace Eval

/-- An evaluation that does the same whatever the sink is, and closes the scopes that it opens. -/
structure Quiet {α : Type} (x : Eval α) : Prop where
  sink : ∀ s sink, x (s.withSink sink) = relabel id id (Store.withSink sink) (x s)
  size : ∀ s, (state (x s)).scopes.size = s.scopes.size

namespace Quiet

variable {α β : Type}

theorem pure (a : α) : Quiet (pure a) := ⟨fun _ _ => rfl, fun _ => rfl⟩

theorem fail (e : RunError) : Quiet (fail e : Eval α) := ⟨fun _ _ => rfl, fun _ => rfl⟩

theorem ofExcept (x : Except RunError α) : Quiet (ofExcept x) := by
  cases x with
  | ok a => exact pure a
  | error e => exact fail e

theorem bind {x : Eval α} {f : α → Eval β} (hx : Quiet x) (hf : ∀ a, Quiet (f a)) : Quiet (x >>= f) := by
  constructor
  · intro s sink
    have hs := hx.sink s sink
    cases hrun : x s with
    | ok a t =>
      rw [hrun] at hs
      rw [bind_of_ok hrun, bind_of_ok hs]
      exact (hf a).sink t sink
    | error e t =>
      rw [hrun] at hs
      rw [bind_of_error hrun, bind_of_error hs]
      rfl
  · intro s
    have hs := hx.size s
    cases hrun : x s with
    | ok a t =>
      rw [hrun] at hs
      rw [bind_of_ok hrun]
      exact ((hf a).size t).trans hs
    | error e t =>
      rw [hrun] at hs
      rw [bind_of_error hrun]
      exact hs

/-- The store may be looked at, but not its sink. -/
theorem get_bind {f : Store → Eval α} (hf : ∀ s, Quiet (f s)) (hsink : ∀ s sink, f (s.withSink sink) = f s) :
    Quiet (get >>= f) := by
  refine ⟨fun s sink => ?_, fun s => (hf s).size s⟩
  rw [Stateful.get_bind, Stateful.get_bind, hsink]
  exact (hf s).sink s sink

/-- The store may be changed apart from its sink and the number of its scopes. -/
theorem modify {change : Store → Store} (hsink : ∀ s sink, change (s.withSink sink) = (change s).withSink sink)
    (hsize : ∀ s, (change s).scopes.size = s.scopes.size) : Quiet (modify change) :=
  ⟨fun s sink => congrArg (EStateM.Result.ok PUnit.unit) (hsink s sink), hsize⟩

/-- A change of a scope that may be refused. -/
theorem updateScope {scope : Nat} {change : RunFrame → Option RunFrame} {e : RunError} :
    Quiet (do
      match (← get).updateScope? scope change with
      | some s => set s
      | none => Eval.fail e) := by
  constructor
  · intro s sink
    rw [Stateful.get_bind, Stateful.get_bind]
    unfold Store.updateScope? Store.withSink
    cases s.scopes[scope]? with
    | none => rfl
    | some frame =>
      simp only
      cases change frame <;> rfl
  · intro s
    rw [Stateful.get_bind]
    unfold Store.updateScope?
    cases s.scopes[scope]? with
    | none => rfl
    | some frame =>
      simp only
      cases change frame with
      | none => rfl
      | some changed => exact Array.size_setIfInBounds

theorem define (env : Env) (name : String) (cell : Cell) (offset : Nat) : Quiet (define env name cell offset) :=
  updateScope

theorem functions (fs : List Function) : Quiet (functions fs) := by
  induction fs with
  | nil => exact pure ()
  | cons f rest ih => exact bind updateScope fun _ => ih

theorem resolve (env : Env) (name : String) (offset : Nat) : Quiet (resolve env name offset) := by
  refine get_bind (fun s => ?_) fun _ _ => rfl
  cases s.findVariable? env name with
  | none => exact fail _
  | some found => exact pure found

theorem receiver (env : Env) (name : String) (nameOffset offset : Nat) :
    Quiet (receiver env name nameOffset offset) := by
  refine bind (resolve env name nameOffset) fun found => ?_
  cases hmutable : found.2.mutable with
  | true =>
    simp only [hmutable, if_true]
    exact pure found.1
  | false =>
    simp only [hmutable, Bool.false_eq_true, if_false]
    exact fail _

theorem valueOf (ref : VariableRef) : Quiet (valueOf ref) :=
  get_bind (fun s => pure (s.valueOf ref)) fun _ _ => rfl

theorem newList (values : List Value) : Quiet (newList values) :=
  ⟨fun _ _ => rfl, fun _ => rfl⟩

theorem sink_eq {x : Eval α} (hx : Quiet x) (s : Store) : (state (x s)).sink = s.sink := by
  -- The evaluation may as well begin with the sink that it begins with.
  have hsame : x s = relabel id id (Store.withSink s.sink) (x s) := hx.sink s s.sink
  have hstate := congrArg state hsame
  rw [state_relabel] at hstate
  rw [hstate]
  rfl

end Quiet

section

variable {v : Value} {offset : Nat} {s : Store} {sink : Sink}

/-- Printing a value writes one line. -/
theorem print_of_taken (h : s.sink.write (s.heap.display v ++ "\n") = (true, sink)) :
    builtin .print [v] offset s = .ok .nil (s.withSink sink) := by
  have hwrite := write_eq (s.heap.display v ++ "\n") s
  rw [h] at hwrite
  exact bind_of_ok hwrite

/-- Printing fails if the line is not taken as a whole. -/
theorem print_of_refused (h : s.sink.write (s.heap.display v ++ "\n") = (false, sink)) :
    builtin .print [v] offset s = .error (.error (.outputFailed Sink.refusal)) (s.withSink sink) := by
  have hwrite := write_eq (s.heap.display v ++ "\n") s
  rw [h] at hwrite
  have hrest := bind_of_error (f := fun _ => (pure Value.nil : Eval Value)) hwrite
  exact hrest

end

end Eval

/-- A step during which nothing is recorded changes the store alone. -/
theorem Traced.lift_eq {α : Type} (x : Eval α) (r : Recorder) :
    lift x r = relabel id id (fun s => { r with store := s }) (x r.store) := by
  unfold lift
  cases x r.store <;> rfl

/-- The recorder in a fresh scope. -/
def Recorder.openScope (r : Recorder) : Recorder :=
  { r with store := r.store.openScope, origins := r.origins.push [] }

/-- The recorder when the innermost scope has been closed. -/
def Recorder.closeScope (r : Recorder) : Recorder :=
  { r with store := r.store.closeScope, origins := r.origins.pop }

/-- The scope is closed however the body ends. -/
theorem Traced.inScope_eq {α : Type} (env : Env) (body : Env → Traced α) (r : Recorder) :
    inScope env body r = relabel id id Recorder.closeScope (body (r.store.scopes.size :: env) r.openScope) := by
  unfold inScope
  change _ = relabel id id Recorder.closeScope (body (r.store.scopes.size :: env)
    { r with store := r.store.openScope, origins := r.origins.push [] })
  cases body (r.store.scopes.size :: env) { r with store := r.store.openScope, origins := r.origins.push [] } <;> rfl

/-! ## §3 Limited runs -/

/-- What has been written so far. -/
def Recorder.written (r : Recorder) : ByteArray := r.store.sink.written

/-- The moment of a run whose output is limited. -/
def Moment.limited (n : Nat) (m : Moment) : Moment := { m with store := m.store.limited n }

/-- The recorder of a run whose output is limited. -/
def Recorder.limited (n : Nat) (r : Recorder) : Recorder :=
  { r with store := r.store.limited n, moments := r.moments.map (Moment.limited n) }

/-- A value is about to be printed that makes the output exceed `n` bytes for the first time; it ends up in the output
`total`. -/
def Moment.Exhausts (n : Nat) (total : ByteArray) (m : Moment) : Prop :=
  (∃ node name, m.event = .calls node name 1 ∧ m.store.findFunction? m.env name 1 = some (.builtin .print)) ∧
    m.store.sink.written.size ≤ n ∧
    ∃ v more, total = m.store.sink.written ++ (m.store.heap.display v ++ "\n").toUTF8 ++ more ∧
      n < (m.store.sink.written ++ (m.store.heap.display v ++ "\n").toUTF8).size

/-- A limited run has come to its end where the unlimited one, which has got to `r`, exceeded the limit.  The last of
its moments is that of the failing print; only scopes have been closed since. -/
structure Recorder.Cut (n : Nat) (r c : Recorder) : Prop where
  written : c.written = r.written.extract 0 n
  last : ∃ m earlier, m :: earlier <:+ r.moments ∧ c.moments = (m :: earlier).map (Moment.limited n) ∧
    m.Exhausts n r.written ∧ c.store.heap = m.store.heap ∧ c.store.scopes.toList <+: m.store.scopes.toList

/-- An unlimited run goes on: it writes and records more, and no scope stays open. -/
structure Recorder.Grows (r r' : Recorder) : Prop where
  unlimited : r'.store.sink.limit = none
  written : ∃ more, r'.written = r.written ++ more
  moments : r.moments <:+ r'.moments
  size : r'.store.scopes.size = r.store.scopes.size

namespace Recorder

variable {n : Nat} {r r' r'' c : Recorder}

theorem Grows.refl (h : r.store.sink.limit = none) : r.Grows r :=
  ⟨h, ⟨.empty, ByteArray.append_empty.symm⟩, List.suffix_rfl, rfl⟩

theorem Grows.trans (h : r.Grows r') (h' : r'.Grows r'') : r.Grows r'' := by
  obtain ⟨more, hmore⟩ := h.written
  obtain ⟨more', hmore'⟩ := h'.written
  refine ⟨h'.unlimited, ⟨more ++ more', ?_⟩, h.moments.trans h'.moments, h'.size.trans h.size⟩
  rw [hmore', hmore, ByteArray.append_assoc]

theorem Grows.size_le (h : r.Grows r') : r.written.size ≤ r'.written.size := by
  obtain ⟨more, hmore⟩ := h.written
  rw [hmore, ByteArray.size_append]
  exact Nat.le_add_right _ _

/-- The unlimited run may go on; the limited one has ended. -/
theorem Cut.grow (h : r.Cut n c) (hgrows : r.Grows r') (hlt : n < r.written.size) : r'.Cut n c := by
  obtain ⟨more, hmore⟩ := hgrows.written
  obtain ⟨m, earlier, hsuffix, hmoments, ⟨hevent, hfits, v, rest, htotal, hexceeds⟩, hheap, hscopes⟩ := h.last
  have hsuffix' := hsuffix.trans hgrows.moments
  refine ⟨?_, m, earlier, hsuffix', hmoments, ⟨hevent, hfits, v, rest ++ more, ?_, hexceeds⟩, hheap, hscopes⟩
  · rw [h.written, hmore, ByteArray.extract_append, Nat.zero_sub, Nat.sub_eq_zero_of_le hlt.le, ByteArray.extract_same,
      ByteArray.append_empty]
  · rw [hmore, htotal, ByteArray.append_assoc]

end Recorder

/-- From a recorder without a limit, an evaluation has one outcome without a limit and another one with it. -/
structure Truncated {α : Type} (n : Nat) (r : Recorder) (free limited : EStateM.Result Stop Recorder α) : Prop where
  grows : r.Grows (state free)
  fits : (state free).written.size ≤ n → limited = relabel id id (Recorder.limited n) free
  cuts : r.written.size ≤ n → n < (state free).written.size → ∃ c,
    limited = .error (.error (.outputFailed Sink.refusal)) c ∧ c.store.scopes.size = r.store.scopes.size ∧
      (state free).Cut n c

/-- An evaluation with a limit is the evaluation without one up to the print that exceeds the limit. -/
def Truncates {α : Type} (n : Nat) (r : Recorder) (x : Traced α) : Prop :=
  r.store.sink.limit = none → Truncated n r (x r) (x (r.limited n))

namespace Truncates

variable {α β : Type} {n : Nat} {r : Recorder} {x : Traced α} {f : α → Traced β}

/-! ## §4 Single steps -/

/-- A step that writes nothing. -/
theorem of_written (hgrows : r.store.sink.limit = none → r.Grows (state (x r)))
    (hwritten : (state (x r)).written = r.written) (h : x (r.limited n) = relabel id id (Recorder.limited n) (x r)) :
    Truncates n r x := by
  refine fun hlimit => ⟨hgrows hlimit, fun _ => h, fun hle hlt => ?_⟩
  rw [hwritten] at hlt
  exact absurd hlt hle.not_gt

theorem pure (a : α) : Truncates n r (pure a) :=
  of_written .refl rfl rfl

theorem stop (e : Stop) : Truncates n r (throw e : Traced α) :=
  of_written .refl rfl rfl

theorem note (env : Env) (event : Event) : Truncates n r (Traced.note env event) :=
  of_written (fun h => ⟨h, ⟨.empty, ByteArray.append_empty.symm⟩, List.suffix_cons _ _, rfl⟩) rfl rfl

theorem quiet {x : Eval α} (hx : x.Quiet) : Truncates n r (Traced.lift x) := by
  have hsink : (state (x r.store)).sink = r.store.sink := hx.sink_eq r.store
  have hsize := hx.size r.store
  apply of_written
  · intro hlimit
    rw [Traced.lift_eq, state_relabel]
    refine ⟨hsink ▸ hlimit, ⟨.empty, ?_⟩, List.suffix_rfl, hsize⟩
    rw [ByteArray.append_empty]
    exact congrArg Sink.written hsink
  · rw [Traced.lift_eq, state_relabel]
    exact congrArg Sink.written hsink
  · have hlimited : x (r.limited n).store = _ := hx.sink r.store (r.store.sink.limited n)
    rw [Traced.lift_eq, Traced.lift_eq, hlimited]
    cases hrun : x r.store with
    | ok a s | error e s =>
      rw [hrun] at hsink
      simp only [relabel, id, Recorder.limited, Store.limited]
      rw [← hsink]
      rfl

/-- The store may be looked at, but not its sink. -/
theorem get {f : Store → Traced β} (hsink : f (r.store.limited n) = f r.store) (hf : Truncates n r (f r.store)) :
    Truncates n r (Traced.lift MonadState.get >>= f) := by
  intro hlimit
  have hrun := hf hlimit
  change Truncated n r (f r.store r) (f (r.store.limited n) (r.limited n))
  rw [hsink]
  exact hrun

theorem bind (hx : Truncates n r x) (hf : ∀ a r', x r = .ok a r' → Truncates n r' (f a)) :
    Truncates n r (x >>= f) := by
  intro hlimit
  obtain ⟨hgrows, hfits, hcuts⟩ := hx hlimit
  cases hrun : x r with
  | error e r' =>
    rw [hrun] at hgrows hfits hcuts
    rw [bind_of_error hrun]
    refine ⟨hgrows, fun hle => bind_of_error (hfits hle), fun hle hlt => ?_⟩
    obtain ⟨c, hc, hcut⟩ := hcuts hle hlt
    exact ⟨c, bind_of_error hc, hcut⟩
  | ok a r' =>
    rw [hrun] at hgrows hfits hcuts
    obtain ⟨hgrows', hfits', hcuts'⟩ := hf a r' hrun hgrows.unlimited
    rw [bind_of_ok hrun]
    refine ⟨hgrows.trans hgrows', fun hle => ?_, fun hle hlt => ?_⟩
    · -- What fits after the second part fits before it.
      rw [bind_of_ok (hfits (hgrows'.size_le.trans hle))]
      exact hfits' hle
    · by_cases hfirst : r'.written.size ≤ n
      · obtain ⟨c, hc, hsize, hcut⟩ := hcuts' hfirst hlt
        exact ⟨c, (bind_of_ok (hfits hfirst)).trans hc, hsize.trans hgrows.size, hcut⟩
      · -- The limit was exceeded in the first part, so the limited run does not get to the second one.
        obtain ⟨c, hc, hsize, hcut⟩ := hcuts hle (Nat.lt_of_not_le hfirst)
        exact ⟨c, bind_of_error hc, hsize, hcut.grow hgrows' (Nat.lt_of_not_le hfirst)⟩

theorem ite {c : Prop} [Decidable c] {x' : Traced α} (hx : Truncates n r x) (hx' : Truncates n r x') :
    Truncates n r (if c then x else x') := by
  split
  · exact hx
  · exact hx'

theorem discard (hx : Truncates n r x) : Truncates n r (discard x) :=
  bind hx fun _ _ _ => pure ()

theorem watch (env : Env) (before : Event) (after : α → Event) (hx : ∀ r, Truncates n r x) :
    Truncates n r (Traced.watch env before after x) :=
  bind (note env before) fun _ r' _ => bind (hx r') fun a _ _ => bind (note env (after a)) fun _ _ _ => pure a

theorem define (env : Env) (node : Node) (name : String) (cell : Cell) :
    Truncates n r (Traced.define env node name cell) := by
  refine bind (quiet (.define env name cell _)) fun _ _ _ => bind ?_ fun _ _ _ => note env _
  exact of_written (fun h => ⟨h, ⟨.empty, ByteArray.append_empty.symm⟩, List.suffix_rfl, rfl⟩) rfl rfl

/-- Printing a value just after the moment that tells of it. -/
theorem print {env : Env} {node : Node} {name : String} {origins : Origins} {earlier : List Moment} (v : Value)
    (offset : Nat) (hmoments : r.moments = ⟨env, r.store, origins, .calls node name 1⟩ :: earlier)
    (hfind : r.store.findFunction? env name 1 = some (.builtin .print)) :
    Truncates n r (Traced.lift (Eval.builtin .print [v] offset)) := by
  intro hlimit
  rw [Traced.lift_eq, Traced.lift_eq, Eval.print_of_taken (Sink.write_of_unlimited hlimit _)]
  refine ⟨⟨hlimit, ⟨_, rfl⟩, List.suffix_rfl, rfl⟩, fun hle => ?_, fun hle hlt => ?_⟩
  · have htaken : (r.limited n).store.sink.write _ = _ := Sink.write_limited_of_le hle
    rw [Eval.print_of_taken htaken]
    rfl
  · have hrefused : (r.limited n).store.sink.write _ = _ := Sink.write_limited_of_lt hle hlt
    rw [Eval.print_of_refused hrefused]
    refine ⟨_, rfl, rfl, rfl, ⟨env, r.store, origins, .calls node name 1⟩, earlier, ?_, ?_,
      ⟨⟨node, name, rfl, hfind⟩, hle, v, .empty, ByteArray.append_empty.symm, hlt⟩, rfl, List.prefix_rfl⟩
    · exact hmoments ▸ List.suffix_rfl
    · exact congrArg (List.map (Moment.limited n)) hmoments

/-- A body in a fresh scope. -/
theorem inScope {env : Env} {body : Env → Traced α} (hbody : ∀ inner r', Truncates n r' (body inner)) :
    Truncates n r (Traced.inScope env body) := by
  intro hlimit
  obtain ⟨hgrows, hfits, hcuts⟩ := hbody (r.store.scopes.size :: env) r.openScope hlimit
  have hclose : ∀ r' : Recorder, r'.store.scopes.size = r.openScope.store.scopes.size →
      r'.closeScope.store.scopes.size = r.store.scopes.size := by
    intro r' hsize
    change r'.store.scopes.pop.size = _
    rw [Array.size_pop, hsize]
    exact congrArg Nat.pred (Array.size_push (Frame.empty : RunFrame))
  -- The same scope is opened in both runs.
  have hlimited : Traced.inScope env body (r.limited n) = relabel id id Recorder.closeScope
    (body (r.store.scopes.size :: env) (r.openScope.limited n)) := Traced.inScope_eq env body _
  rw [Traced.inScope_eq, hlimited]
  refine ⟨?_, fun hle => ?_, fun hle hlt => ?_⟩
  · rw [state_relabel]
    exact ⟨hgrows.unlimited, hgrows.written, hgrows.moments, hclose _ hgrows.size⟩
  · rw [state_relabel] at hle
    rw [hfits hle]
    cases body (r.store.scopes.size :: env) r.openScope <;> rfl
  · rw [state_relabel] at hlt ⊢
    obtain ⟨c, hc, hsize, hwritten, m, earlier, hsuffix, hmoments, hexhausts, hheap, hscopes⟩ := hcuts hle hlt
    rw [hc]
    refine ⟨c.closeScope, rfl, hclose c hsize, hwritten, m, earlier, hsuffix, hmoments, hexhausts, hheap, ?_⟩
    change c.store.scopes.pop.toList <+: _
    rw [Array.toList_pop]
    exact (List.dropLast_prefix _).trans hscopes

/-! ## §5 Sequences -/

section

variable {eval : Expr → Traced Value} (heval : ∀ r e, Truncates n r (eval e))

include heval

theorem all (es : List Expr) : Truncates n r (Traced.all eval es) := by
  induction es generalizing r with
  | nil => exact pure []
  | cons e rest ih => exact bind (heval r e) fun v _ _ => bind ih fun vs _ _ => pure (v :: vs)

theorem optional (e : Option Expr) : Truncates n r (Traced.optional eval e) := by
  cases e with
  | none => exact pure Value.nil
  | some e => exact heval r e

theorem binary (op : Operator) (left right : Expr) (offset : Nat) :
    Truncates n r (Traced.binary eval op left right offset) := by
  refine bind (heval r left) fun l _ _ => ite ?_ ?_
  · refine bind (quiet (.ofExcept _)) fun decided r' _ => ite (pure l) ?_
    exact bind (heval r' right) fun v _ _ => quiet (.ofExcept _)
  · exact bind (heval _ right) fun v _ _ => get rfl (quiet (.ofExcept _))

theorem element (env : Env) (name : String) (index : Expr) (offset : Nat) :
    Truncates n r (Traced.element eval env name index offset) := by
  refine bind (quiet (.resolve env name offset)) fun found r' _ => bind (heval r' index) fun position _ _ => ?_
  refine bind (quiet (.valueOf found.1)) fun held _ _ => bind (quiet (.ofExcept _)) fun list _ _ => get rfl ?_
  exact bind (quiet (.ofExcept _)) fun i _ _ => bind (quiet (.ofExcept _)) fun i _ _ => pure _

theorem storeElement (ref : VariableRef) (index value receiver : Expr) (offset : Nat) :
    Truncates n r (Traced.storeElement eval ref index value receiver offset) := by
  refine bind (heval r index) fun position r' _ => bind (heval r' value) fun v _ _ => ?_
  refine bind (quiet (.valueOf ref)) fun held _ _ => bind (quiet (.ofExcept _)) fun list _ _ => get rfl ?_
  refine ite (quiet (.fail _)) (bind (quiet (.ofExcept _)) fun i _ _ => bind (quiet (.ofExcept _)) fun i _ _ => ?_)
  exact quiet (.modify (fun _ _ => rfl) fun _ => rfl)

theorem assign (env : Env) (target value : Expr) (offset : Nat) :
    Truncates n r (Traced.assign eval env target value offset) := by
  -- Only variables and elements can be assigned.
  cases target with
  | «variable» node name =>
    refine bind (quiet (.receiver env name node.offset offset)) fun ref r' _ => bind (heval r' value) fun v _ _ => ?_
    exact quiet (.modify (fun _ _ => rfl) fun _ => Array.size_modify)
  | element node name index =>
    refine bind (quiet (.receiver env name node.offset offset)) fun ref r' _ => ?_
    exact storeElement heval ref index value _ offset
  | literal | group | binary | call | list => exact quiet (.fail _)

theorem select (subject : Value) (fallback : Option (List Statement)) (cases : List Case) :
    Truncates n r (Traced.select eval subject fallback cases) := by
  induction cases generalizing r fallback with
  | nil => exact pure fallback
  | cons arm rest ih =>
    obtain ⟨offset, value, body⟩ := arm
    cases value with
    | none => exact ih _
    | some value => exact bind (heval r value) fun v _ _ => get rfl (ite (pure (some body)) (ih fallback))

end

theorem inOrder {exec : Statement → Traced Flow} (hexec : ∀ r s, Truncates n r (exec s)) (body : List Statement) :
    Truncates n r (Traced.inOrder exec body) := by
  induction body generalizing r with
  | nil => exact pure Flow.normal
  | cons first rest ih =>
    apply bind (hexec r first)
    intro flow r' _
    cases flow with
    | returned v => exact pure (Flow.returned v)
    | normal => exact ih

theorem block {exec : Env → Statement → Traced Flow} (hexec : ∀ r env s, Truncates n r (exec env s)) (env : Env)
    (body : List Statement) : Truncates n r (Traced.block exec env body) :=
  inScope fun inner _ => inOrder (fun r' s => hexec r' inner s) body

theorem bindParameters (env : Env) (ps : List Parameter) (values : List Value) :
    Truncates n r (Traced.bindParameters env ps values) := by
  induction ps generalizing r values with
  | nil => exact pure ()
  | cons p rest ih =>
    cases values with
    | nil => exact pure ()
    | cons v values => exact bind (define env p.node p.name ⟨true, v⟩) fun _ _ _ => ih values

/-! ## §6 Everything together -/

/-- The moment of a call with that many arguments has just been recorded. -/
def Announced (env : Env) (name : String) (arity : Nat) (r : Recorder) : Prop :=
  ∃ node origins earlier, r.moments = ⟨env, r.store, origins, .calls node name arity⟩ :: earlier

/-- All evaluators with that fuel are cut short by a limit.  A call that may print has been announced. -/
structure Everywhere (n fuel : Nat) : Prop where
  expression : ∀ r env e, Truncates n r (Traced.expression fuel env e)
  call : ∀ r env name arguments offset, (arguments.length = 1 → Announced env name 1 r) →
    Truncates n r (Traced.call fuel env name arguments offset)
  statement : ∀ r env s, Truncates n r (Traced.statement fuel env s)
  loop : ∀ r env condition body, Truncates n r (Traced.loop fuel env condition body)

namespace Everywhere

variable {fuel : Nat}

theorem expression_succ (h : Everywhere n fuel) (r : Recorder) (env : Env) (e : Expr) :
    Truncates n r (Traced.expression (fuel + 1) env e) := by
  apply watch env _ _
  intro r
  cases e with
  | literal node value => exact pure (Value.ofLiteral value)
  | group node inner => exact h.expression r env inner
  | binary node op left right => exact binary (fun r e => h.expression r env e) op left right node.offset
  | «variable» node name => exact bind (quiet (.resolve env name node.offset)) fun found _ _ => pure _
  | element node name index => exact element (fun r e => h.expression r env e) env name index node.offset
  | call node name arguments =>
    refine bind (all (fun r e => h.expression r env e) arguments) fun values r' _ => ?_
    refine bind (note env _) fun _ r'' hnote => h.call r'' env name values node.offset fun hone => ?_
    obtain ⟨-, rfl⟩ := pure_eq_ok.mp hnote
    exact ⟨node, r'.origins, r'.moments, by rw [hone]⟩
  | list node elements =>
    exact bind (all (fun r e => h.expression r env e) elements) fun values _ _ => quiet (.newList values)

theorem call_succ (h : Everywhere n fuel) (r : Recorder) (env : Env) (name : String) (arguments : List Value)
    (offset : Nat) (hannounced : arguments.length = 1 → Announced env name 1 r) :
    Truncates n r (Traced.call (fuel + 1) env name arguments offset) := by
  refine get rfl ?_
  cases hfind : r.store.findFunction? env name arguments.length with
  | none => exact quiet (.fail _)
  | some callable =>
    cases callable with
    | builtin which =>
      cases which with
      | print =>
        -- Only a call with one argument prints.
        match arguments, hannounced, hfind with
        | [], _, _ => exact quiet (.fail _)
        | [v], hannounced, hfind =>
          obtain ⟨node, origins, earlier, hmoments⟩ := hannounced rfl
          exact print v offset hmoments hfind
        | _ :: _ :: _, _, _ => exact quiet (.fail _)
    | defined f closure =>
      cases closure with
      | none => exact quiet (.fail _)
      | some closure =>
        refine inScope fun inner _ => bind (bindParameters inner f.parameters arguments) fun _ _ _ => ?_
        apply bind (inOrder (fun r s => h.statement r inner s) f.body)
        intro flow _ _
        cases flow <;> exact pure _

theorem statement_succ (h : Everywhere n fuel) (r : Recorder) (env : Env) (s : Statement) :
    Truncates n r (Traced.statement (fuel + 1) env s) := by
  apply watch env _ _
  intro r
  have heval : ∀ r e, Truncates n r (Traced.expression fuel env e) := fun r e => h.expression r env e
  cases s with
  | expression offset e => exact bind (discard (heval r e)) fun _ _ _ => pure Flow.normal
  | declaration node name type value =>
    refine bind (optional heval value) fun v _ _ => ?_
    exact bind (define env node name ⟨true, v⟩) fun _ _ _ => pure Flow.normal
  | assignment offset target value =>
    exact bind (assign heval env target value offset) fun _ _ _ => pure Flow.normal
  | conditional offset condition onTrue onFalse =>
    refine bind (heval r condition) fun test _ _ => bind (quiet (.ofExcept _)) fun holds _ _ => ?_
    exact ite (pure Flow.normal) (block h.statement env _)
  | switch offset condition cases =>
    apply bind (heval r condition)
    intro subject _ _
    apply bind (select heval subject none cases)
    intro body _ _
    cases body with
    | none => exact pure Flow.normal
    | some body => exact block h.statement env body
  | loop offset condition body => exact h.loop r env condition body
  | returning offset value => exact bind (heval r value) fun v _ _ => pure (Flow.returned v)

theorem loop_succ (h : Everywhere n fuel) (r : Recorder) (env : Env) (condition : Expr) (body : List Statement) :
    Truncates n r (Traced.loop (fuel + 1) env condition body) := by
  refine bind (h.expression r env condition) fun test _ _ => bind (quiet (.ofExcept _)) fun holds _ _ => ?_
  refine ite ?_ (pure Flow.normal)
  apply bind (block h.statement env body)
  intro flow r' _
  cases flow with
  | returned v => exact pure (Flow.returned v)
  | normal => exact h.loop r' env condition body

end Everywhere

/-- With any amount of fuel, the evaluators are cut short by a limit. -/
theorem everywhere (n fuel : Nat) : Everywhere n fuel := by
  -- The four evaluators call each other with less fuel.
  induction fuel with
  | zero =>
    exact ⟨fun _ _ _ => stop _, fun _ _ _ _ _ _ => stop _, fun _ _ _ => stop _, fun _ _ _ _ => stop _⟩
  | succ fuel ih => exact ⟨ih.expression_succ, ih.call_succ, ih.statement_succ, ih.loop_succ⟩

theorem globals (fuel : Nat) (gs : List Global) : Truncates n r (Traced.globals fuel gs) := by
  induction gs generalizing r with
  | nil => exact pure ()
  | cons g rest ih =>
    apply bind (optional (fun r e => (everywhere n fuel).expression r .globals e) g.value)
    intro v _ _
    exact bind (define .globals g.node g.name ⟨g.mutable, v⟩) fun _ _ _ => ih

theorem program (fuel : Nat) (p : Program) : Truncates n r (Traced.program fuel p) := by
  refine bind (globals fuel p.globals) fun _ _ _ => bind (quiet (.functions p.functions)) fun _ r' _ => ?_
  -- The entry point is called without arguments, so it does not print by itself.
  exact (everywhere n fuel).call r' .globals "main" [] (Eval.mainOffset p) fun hone => absurd hone (by decide)

end Truncates

/-! ## §7 Programs -/

/-- What a run of a program with some fuel writes to a sink that takes everything. -/
def Program.output (p : Program) (fuel : Nat) : ByteArray :=
  (state (Eval.program fuel p (.initial none))).sink.written

/-- The record of a run ends with the store with which the run ends. -/
theorem Program.record_store (p : Program) (fuel : Nat) (limit : Option Nat) :
    (p.record fuel limit).store = state (Eval.program fuel p (.initial limit)) := by
  rw [← Traced.forget_program]
  unfold Program.record
  cases Traced.program fuel p (.initial limit) <;> rfl

/-- A sink that takes at most `n` bytes changes nothing in a run that writes no more; it cuts a run that writes more
off at the print that exceeds the limit.  Of that run the output is the beginning of the whole output, the moments are
those up to the failing print, and the lists and the globals are what they were then. -/
theorem limited_run_truncated (p : Program) (fuel n : Nat) :
    ((p.output fuel).size ≤ n → Eval.program fuel p (.initial (some n)) =
      relabel id id (Store.limited n) (Eval.program fuel p (.initial none))) ∧
    (n < (p.output fuel).size → ∃ s m earlier,
      Eval.program fuel p (.initial (some n)) = .error (.error (.outputFailed Sink.refusal)) s ∧
      s.sink.written = (p.output fuel).extract 0 n ∧
      m :: earlier <:+ (p.record fuel none).moments ∧
      (p.record fuel (some n)).moments = (m :: earlier).map (Moment.limited n) ∧
      m.Exhausts n (p.output fuel) ∧
      s.heap = m.store.heap ∧ s.scopes.toList = m.store.scopes.toList.take 1) := by
  obtain ⟨-, hfits, hcuts⟩ := Truncates.program (r := .initial none) (n := n) fuel p rfl
  have hstate : Stateful.state (Traced.program fuel p (.initial none)) = p.record fuel none := by
    unfold Program.record
    cases Traced.program fuel p (.initial none) <;> rfl
  have houtput : (p.record fuel none).written = p.output fuel := congrArg (·.sink.written) (p.record_store fuel none)
  rw [hstate, houtput] at hfits hcuts
  -- The limited run begins with the limited state.
  change _ → Traced.program fuel p (.initial (some n)) = _ at hfits
  change _ → _ → ∃ c, Traced.program fuel p (.initial (some n)) = _ ∧ _ at hcuts
  refine ⟨fun hle => ?_, fun hlt => ?_⟩
  · rw [← Traced.forget_program, ← Traced.forget_program, hfits hle]
    cases Traced.program fuel p (.initial none) <;> rfl
  · obtain ⟨c, hc, hsize, hwritten, m, earlier, hsuffix, hmoments, hexhausts, hheap, hscopes⟩ :=
      hcuts (Nat.zero_le n) hlt
    rw [houtput] at hwritten hexhausts
    have hrun : Eval.program fuel p (.initial (some n)) = _ :=
      (Traced.forget_program fuel p (some n)).symm.trans (congrArg Recorder.forget hc)
    refine ⟨c.store, m, earlier, hrun, hwritten, hsuffix, ?_, hexhausts, hheap, ?_⟩
    · rw [← hmoments]
      unfold Program.record
      rw [hc]
      rfl
    · -- Every scope but that of the globals has been closed.
      have hlength : c.store.scopes.toList.length = 1 := hsize
      rw [List.prefix_iff_eq_take.mp hscopes, hlength]

/-- The tree of a program that prints two lines: `FUN main() DO print(1); print(2); END`. -/
def twoLines : Program where
  globals := []
  functions := [⟨⟨0, 0⟩, "main", [], none,
    [.expression 14 (.call ⟨1, 14⟩ "print" [.literal ⟨2, 20⟩ (.integer 1)]),
      .expression 24 (.call ⟨3, 24⟩ "print" [.literal ⟨4, 30⟩ (.integer 2)])]⟩]

/-- With room for three bytes, that program fails while printing its second line. -/
theorem limited_run_truncated_second_line :
    3 < (twoLines.output 8).size ∧ ∃ s m earlier,
      Eval.program 8 twoLines (.initial (some 3)) = .error (.error (.outputFailed Sink.refusal)) s ∧
      s.sink.written = "1\n2".toUTF8 ∧
      (twoLines.record 8 (some 3)).moments = (m :: earlier).map (Moment.limited 3) ∧
      m.Exhausts 3 (twoLines.output 8) := by
  have hlt : 3 < (twoLines.output 8).size := by decide +kernel
  have hbytes : (twoLines.output 8).extract 0 3 = "1\n2".toUTF8 := by decide +kernel
  obtain ⟨s, m, earlier, hrun, hwritten, -, hmoments, hexhausts, -⟩ := (limited_run_truncated twoLines 8 3).2 hlt
  exact ⟨hlt, s, m, earlier, hrun, hwritten.trans hbytes, hmoments, hexhausts⟩

end BlockLang
