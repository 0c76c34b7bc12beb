import BlockLang.Proofs.Grammar.Viable

/-!
# Readers that do the same

Readers look one token ahead and consume tokens from the front.  So two readers that differ in nothing but their bounds,
or in what they do where no bound is left, do the same for as long as the tokens that both see are the same and the
bounds exceed their number: before a reader goes down a level or makes another pass of a loop, it consumes a token.
`Mirrors` says so of two readers at places that look alike, for any notion of that; each reader of the grammar mirrors
itself with other bounds and with other readers inside it.

## Layers

- `ReaderState.Likeness`: when places look alike.
- `Reader.Mirrors`: two readers do the same at such places.
- `Reader.manyPass`, `Reader.moreItemsPass`, `Reader.statementsPass`, `Reader.chainPass`: one pass of each loop.

## Main statements

- `Reader.mirrors_expressionWithin`, `Reader.mirrors_statementWithin`, `Reader.mirrors_programOf`: the readers of the
  grammar are mirrored by any readers that take the same steps.
-/

namespace BlockLang

/-! ## §1 Places that look alike -/

/-- The same token is next, or the places are the same. -/
def ReaderState.SameNext (s s' : ReaderState) : Prop :=
  s = s' ∨ ∃ tok, s.current = some tok ∧ s'.current = some tok

namespace ReaderState.SameNext

variable {s s' : ReaderState}

theorem current (h : s.SameNext s') : s.current = s'.current := by
  rcases h with rfl | ⟨tok, hs, hs'⟩
  · rfl
  · rw [hs, hs']

theorem peek (h : s.SameNext s') (text : String) : s.peek text = s'.peek text := by
  unfold ReaderState.peek
  rw [h.current]

theorem peekOneOf (h : s.SameNext s') (texts : List String) : s.peekOneOf texts = s'.peekOneOf texts := by
  unfold ReaderState.peekOneOf
  rw [h.current]

theorem offset (h : s.SameNext s') : s.offset = s'.offset := by
  unfold ReaderState.offset
  rcases h with rfl | ⟨tok, hs, hs'⟩
  · rfl
  · rw [hs, hs']
    rfl

theorem unexpected (h : s.SameNext s') (expected : Expectation) : s.unexpected expected = s'.unexpected expected := by
  unfold ReaderState.unexpected
  rcases h with rfl | ⟨tok, hs, hs'⟩
  · rfl
  · rw [hs, hs']

end ReaderState.SameNext

/-- What looks at the next token only, and holds of no place behind the last one. -/
structure ReaderState.Looks (more : ReaderState → Bool) : Prop where
  sameNext {s s' : ReaderState} : s.SameNext s' → more s = more s'
  of_nil {s : ReaderState} : s.rest = [] → more s = false

theorem ReaderState.looks_peek (text : String) : ReaderState.Looks (·.peek text) :=
  ⟨fun h => h.peek text, fun h => by simp [ReaderState.peek, ReaderState.current, h]⟩

theorem ReaderState.looks_peekOneOf (texts : List String) : ReaderState.Looks (·.peekOneOf texts) :=
  ⟨fun h => h.peekOneOf texts, fun h => by simp [ReaderState.peekOneOf, ReaderState.current, h]⟩

/-- A notion of places that look alike.  It is kept by the steps of a reader as long as `floor` tokens are left at the
first place; if `edge` tokens are left there, and these are enough, then there are none. -/
structure ReaderState.Likeness where
  floor : Nat
  edge : Nat
  Alike : ReaderState → ReaderState → Prop
  sameNext {s s' : ReaderState} : Alike s s' → floor ≤ s.rest.length → s.SameNext s'
  nextId_eq {s s' : ReaderState} : Alike s s' → s.nextId = s'.nextId
  withId {s s' : ReaderState} (id : Nat) : Alike s s' → Alike { s with nextId := id } { s' with nextId := id }
  advance {s s' : ReaderState} : Alike s s' → floor ≤ s.advance.rest.length → Alike s.advance s'.advance
  nil_of_edge {s s' : ReaderState} : Alike s s' → floor ≤ s.rest.length → s.rest.length ≤ edge →
    s.rest = [] ∧ s'.rest = []

theorem ReaderState.Uses.length_le {s t : ReaderState} {used : List Token} (h : s.Uses used t) :
    t.rest.length ≤ s.rest.length := by
  rw [h.rest, List.length_append]
  exact Nat.le_add_left _ _

theorem ReaderState.uses_advance (s : ReaderState) : ∃ used, s.Uses used s.advance :=
  ⟨s.rest.take 1, (List.take_append_drop 1 s.rest).symm, rfl⟩

namespace Reader

open Stateful

/-- The place at which a reader has stopped. -/
def place {α : Type} : EStateM.Result GrammarError ReaderState α → ReaderState
  | .ok _ t | .error _ t => t

/-- The same phrase, or the same error, at places that look alike. -/
inductive Mirrored {α : Type} (L : ReaderState.Likeness) :
    EStateM.Result GrammarError ReaderState α → EStateM.Result GrammarError ReaderState α → Prop where
  | ok {x t t'} (h : L.Alike t t') : Mirrored L (.ok x t) (.ok x t')
  | error {e t t'} (h : L.Alike t t') : Mirrored L (.error e t) (.error e t')

/-- At two places the first reader consumes tokens only, and if the places look alike, no more than `b` tokens can be
consumed, and enough are left in the end, then the second reader does the same. -/
structure MirrorsAt {α : Type} (L : ReaderState.Likeness) (b : Nat) (s s' : ReaderState) (r r' : Reader α) :
    Prop where
  uses : ∃ used, s.Uses used (place (r s))
  mirrored : L.Alike s s' → s.rest.length ≤ L.edge + b → L.floor ≤ (place (r s)).rest.length →
    Mirrored L (r s) (r' s')

/-- The same at any places. -/
def Mirrors {α : Type} (L : ReaderState.Likeness) (b : Nat) (r r' : Reader α) : Prop :=
  ∀ s s', MirrorsAt L b s s' r r'

/-- The reader consumes at least one token whenever it succeeds. -/
def Advances {α : Type} (r : Reader α) : Prop :=
  ∀ s x t, r s = .ok x t → t.rest.length < s.rest.length

variable {α β : Type} {L : ReaderState.Likeness} {b c : Nat} {s s' : ReaderState}

theorem Mirrors.shrinks {r r' : Reader α} (h : Mirrors L b r r') (s : ReaderState) :
    (place (r s)).rest.length ≤ s.rest.length := by
  obtain ⟨used, hused⟩ := (h s s).uses
  exact hused.length_le

theorem Mirrors.mono {r r' : Reader α} (h : Mirrors L c r r') (hle : b ≤ c) : Mirrors L b r r' :=
  fun s s' => ⟨(h s s').uses, fun hs hb => (h s s').mirrored hs (by omega)⟩

/-- If nothing can be consumed, readers are compared only where no token is left. -/
theorem Mirrors.of_nil {r r' r'' k : Reader α} (h : Mirrors L b r r'') (hk : Mirrors L 0 k k)
    (hr : ∀ s, s.rest = [] → r s = k s) (hr' : ∀ s, s.rest = [] → r' s = k s) : Mirrors L 0 r r' := by
  refine fun s s' => ⟨(h s s').uses, fun hs hb hfloor => ?_⟩
  -- The first place is at the edge, so no token is left at either, and both readers do what `k` does.
  obtain ⟨hnil, hnil'⟩ := L.nil_of_edge hs (hfloor.trans (h.shrinks s)) hb
  rw [hr s hnil] at hfloor ⊢
  rw [hr' s' hnil']
  exact (hk s s').mirrored hs hb hfloor

theorem Mirrors.congr {q q' r r' : Reader α} (h : Mirrors L b r r') (hr : ∀ s, q s = r s)
    (hr' : ∀ s, q' s = r' s) : Mirrors L b q q' := by
  obtain rfl : q = r := funext hr
  obtain rfl : q' = r' := funext hr'
  exact h

/-! ## §2 Putting readers together -/

theorem Mirrors.pure (x : α) : Mirrors L b (pure x) (pure x) :=
  fun s _ => ⟨⟨[], .refl s⟩, fun hs _ _ => .ok hs⟩

theorem Mirrors.throw (e : GrammarError) : Mirrors L b (throw e : Reader α) (throw e) :=
  fun s _ => ⟨⟨[], .refl s⟩, fun hs _ _ => .error hs⟩

/-- In a sequence, the second part can consume fewer tokens if the first one consumes some. -/
theorem Mirrors.bind_of_advances {r r' : Reader α} {k k' : α → Reader β} (d : α → Nat)
    (hr : Mirrors L b r r') (hadvances : ∀ s x t, r s = .ok x t → t.rest.length + d x ≤ s.rest.length)
    (hk : ∀ x, Mirrors L (b - d x) (k x) (k' x)) : Mirrors L b (r >>= k) (r' >>= k') := by
  intro s s'
  obtain ⟨used, hused⟩ := (hr s s').uses
  constructor
  · -- What is consumed is what the first part consumes and then what the second part does.
    cases hx : r s with
    | error e t =>
      rw [hx] at hused
      rw [bind_of_error hx]
      exact ⟨used, hused⟩
    | ok x t =>
      rw [hx] at hused
      rw [bind_of_ok hx]
      obtain ⟨more, hmore⟩ := (hk x t t).uses
      exact ⟨used ++ more, hused.trans hmore⟩
  · intro hs hb hlt
    -- Where enough tokens are left in the end, enough are left in between.
    cases hx : r s with
    | error e t =>
      rw [bind_of_error hx] at hlt ⊢
      have hsame := (hr s s').mirrored hs hb (by rw [hx]; exact hlt)
      rw [hx] at hsame
      generalize hx' : r' s' = result at hsame
      cases hsame with
      | error ht =>
        rw [bind_of_error hx']
        exact .error ht
    | ok x t =>
      rw [bind_of_ok hx] at hlt ⊢
      have hle := (hk x).shrinks t
      have hsame := (hr s s').mirrored hs hb (by rw [hx]; exact hlt.trans hle)
      rw [hx] at hsame
      generalize hx' : r' s' = result at hsame
      cases hsame with
      | @ok _ _ t' ht =>
        rw [bind_of_ok hx']
        have hshorter := hadvances s x t hx
        exact (hk x t t').mirrored ht (by omega) hlt

theorem Mirrors.bind {r r' : Reader α} {k k' : α → Reader β} (hr : Mirrors L b r r')
    (hk : ∀ x, Mirrors L b (k x) (k' x)) : Mirrors L b (r >>= k) (r' >>= k') := by
  refine hr.bind_of_advances (fun _ => 0) (fun s x t hx => ?_) hk
  have hle := hr.shrinks s
  rw [hx] at hle
  exact hle

/-- Readers look at the next token only, which is the same at both places. -/
theorem Mirrors.get_bind {k l : ReaderState → Reader α}
    (h : ∀ s s' : ReaderState, s.SameNext s' → MirrorsAt L b s s' (k s) (l s')) :
    Mirrors L b (get >>= k) (get >>= l) := by
  intro s s'
  obtain ⟨used, hused⟩ := (h s s (Or.inl rfl)).uses
  refine ⟨⟨used, hused⟩, fun hs hb hlt => ?_⟩
  exact (h s s' (L.sameNext hs (hlt.trans hused.length_le))).mirrored hs hb hlt

theorem Mirrors.unexpected (expected : Expectation) :
    Mirrors L b (unexpected expected : Reader α) (unexpected expected) := by
  refine .get_bind fun s s' hnext => ?_
  rw [hnext.unexpected]
  exact Mirrors.throw _ s s'

theorem Mirrors.offset_bind {k k' : Nat → Reader β} (hk : ∀ offset, Mirrors L b (k offset) (k' offset)) :
    Mirrors L b (offset >>= k) (offset >>= k') := by
  refine (Mirrors.get_bind fun s s' hnext => ?_).congr (r := get >>= fun s => k s.offset) (fun _ => rfl) fun _ => rfl
  rw [hnext.offset]
  exact hk _ s s'

theorem Mirrors.freshId_bind {k k' : Nat → Reader β} (hk : ∀ id, Mirrors L b (k id) (k' id)) :
    Mirrors L b (freshId >>= k) (freshId >>= k') := by
  intro s s'
  obtain ⟨used, hused⟩ := (hk s.nextId { s with nextId := s.nextId + 1 } s').uses
  refine ⟨⟨used, hused.rest, hused.endOffset⟩, fun hs hb hlt => ?_⟩
  rw [Reader.freshId_bind, Reader.freshId_bind, ← L.nextId_eq hs]
  exact (hk s.nextId _ _).mirrored (L.withId _ hs) hb hlt

theorem Mirrors.advance : Mirrors L b advance advance :=
  fun s _ => ⟨s.uses_advance, fun hs _ hlt => .ok (L.advance hs hlt)⟩

/-- Behind a token, one token less can be consumed. -/
theorem MirrorsAt.advance_bind {k l : Unit → Reader β} {tok : Token} (hcurrent : s.current = some tok)
    (hk : Mirrors L (b - 1) (k ()) (l ())) : MirrorsAt L b s s' (Reader.advance >>= k) (Reader.advance >>= l) := by
  have hused := ReaderState.Uses.of_current hcurrent
  have hlength : s.rest.length = s.advance.rest.length + 1 := by
    rw [hused.rest, List.length_append, List.length_singleton, Nat.add_comm]
  obtain ⟨more, hmore⟩ := (hk s.advance s'.advance).uses
  refine ⟨⟨[tok] ++ more, hused.trans hmore⟩, fun hs hb hlt => ?_⟩
  rw [Reader.advance_bind] at hlt ⊢
  rw [Reader.advance_bind]
  have hbase := hlt.trans hmore.length_le
  exact (hk _ _).mirrored (L.advance hs hbase) (by omega) hlt

theorem MirrorsAt.ite {a a' d d' : Reader α} {p : Prop} [Decidable p] (ha : MirrorsAt L b s s' a a')
    (hd : MirrorsAt L b s s' d d') : MirrorsAt L b s s' (if p then a else d) (if p then a' else d') := by
  split_ifs
  · exact ha
  · exact hd

theorem Mirrors.ite {a a' d d' : Reader α} {p : Prop} [Decidable p] (ha : Mirrors L b a a')
    (hd : Mirrors L b d d') : Mirrors L b (if p then a else d) (if p then a' else d') :=
  fun s s' => (ha s s').ite (hd s s')

/-- A text that is eaten is one token less. -/
theorem Mirrors.choice {a a' d d' : Reader β} (text : String) (ha : Mirrors L (b - 1) a a')
    (hd : Mirrors L b d d') :
    Mirrors L b (eat text >>= fun found => if found = true then a else d)
      (eat text >>= fun found => if found = true then a' else d') := by
  -- To eat a text is to look at the next token and then to go past it.
  have happly (a d : Reader β) (s : ReaderState) : (eat text >>= fun found => if found = true then a else d) s =
      (get >>= fun s => if s.peek text = true then Reader.advance >>= fun _ => a else d) s := by
    rw [eat_choice, Reader.get_bind]
    split_ifs <;> rfl
  refine (Mirrors.get_bind fun s s' hnext => ?_).congr (happly a d) (happly a' d')
  rw [← hnext.peek]
  split_ifs with hpeek
  · obtain ⟨tok, hcurrent, -⟩ := ReaderState.peek_iff.mp hpeek
    exact .advance_bind hcurrent ha
  · exact hd s s'

theorem Mirrors.expect (text : String) : Mirrors L b (expect text) (expect text) := by
  refine .get_bind fun s s' hnext => ?_
  rw [hnext.peek]
  exact .ite (Mirrors.advance s s') (Mirrors.unexpected _ s s')

/-- Behind text that has been found, one token less can be consumed. -/
theorem Mirrors.expect_bind (text : String) {k k' : Unit → Reader β} (hk : ∀ x, Mirrors L (b - 1) (k x) (k' x)) :
    Mirrors L b (Reader.expect text >>= k) (Reader.expect text >>= k') := by
  refine (Mirrors.expect text).bind_of_advances (fun _ => 1) (fun s x t hx => ?_) hk
  obtain ⟨hpeek, rfl⟩ := expect_eq_ok.mp hx
  obtain ⟨tok, hcurrent, -⟩ := ReaderState.peek_iff.mp hpeek
  rw [(ReaderState.Uses.of_current hcurrent).rest, List.length_append, List.length_singleton, Nat.add_comm]

theorem Mirrors.identifier : Mirrors L b identifier identifier := by
  refine .get_bind fun s s' hnext => ?_
  rw [hnext.current]
  cases s'.current with
  | none => exact Mirrors.unexpected _ s s'
  | some tok => exact .ite (Mirrors.advance.bind (fun _ => .pure _) s s') (Mirrors.unexpected _ s s')

theorem Mirrors.operator? (level : Nat) : Mirrors L b (operator? level) (operator? level) := by
  refine .get_bind fun s s' hnext => ?_
  rw [hnext.current]
  cases s'.current with
  | none => exact Mirrors.pure _ s s'
  | some tok =>
    refine .ite ?_ (Mirrors.pure _ s s')
    cases Operator.ofSymbol? tok.text with
    | none => exact Mirrors.pure _ s s'
    | some op => exact .ite (Mirrors.advance.bind (fun _ => .pure _) s s') (Mirrors.pure _ s s')

theorem Mirrors.typeName? : Mirrors L b typeName? typeName? :=
  .choice _ (.bind .identifier fun _ => .pure _) (.pure _)

/-- Phrases that are written with at least one token are read so. -/
theorem length_lt_of_read {P : Phrase α} {x : α} {t : ReaderState} (h : P.Read x s t) (hne : P.symbols x ≠ []) :
    t.rest.length < s.rest.length := by
  obtain ⟨used, hrest, hlength, -⟩ := h.passes.tokens
  have hpos := List.length_pos_iff.mpr hne
  rw [hrest, List.length_append]
  omega

theorem advances_of_readBy {P : Phrase α} {r : Reader α} (h : P.ReadBy r) (hne : ∀ x, P.symbols x ≠ []) :
    Advances r :=
  fun s x t hx => length_lt_of_read (h s x t hx) (hne x)

theorem Advances.advance_bind {k : Unit → Reader β} (hk : ∀ x, Advances (k x)) : Advances (advance >>= k) := by
  intro s x t h
  have hlt := hk () s.advance x t (by rwa [Reader.advance_bind] at h)
  rw [ReaderState.advance, List.length_drop] at hlt
  omega

theorem Advances.bind {r : Reader α} {k k' : α → Reader β} (hr : Advances r)
    (hk : ∀ x, Mirrors L b (k x) (k' x)) : Advances (r >>= k) := by
  intro s y u h
  obtain ⟨x, t, hx, hy⟩ := bind_eq_ok.mp h
  have hle := (hk x).shrinks t
  rw [hy] at hle
  exact hle.trans_lt (hr s x t hx)

/-! ## §3 Bounds -/

/-- Readers with bounds do the same while no more tokens can be consumed than the first bound, less `d`, and the second
one, less `d'`, if this passes from each bound to the next one, and all of them do the same where no token is left.  The
second reader without a bound counts only if `d'` is zero. -/
theorem mirrors_of_succ_all {γ : Type} {r q : Nat → γ → Reader α} (d d' : Nat)
    (hzero : ∀ x, Mirrors L 0 (r 0 x) (r 0 x)) (hzero' : 0 < d' ∨ q 0 = r 0)
    (hnil : ∀ n x s, s.rest = [] → r (n + 1) x s = r 0 x s)
    (hnil' : ∀ n x s, d' ≤ n + 1 → s.rest = [] → q (n + 1) x s = r 0 x s)
    (hsucc : ∀ n n' b, b ≤ c → b ≤ n + 1 - d → b - 1 + d' ≤ n' → (∀ x, Mirrors L (b - 1) (r n x) (q n' x)) →
      ∀ x, Mirrors L b (r (n + 1) x) (q (n' + 1) x))
    {n n' : Nat} (hb : b ≤ c) : b ≤ n - d → b + d' ≤ n' → ∀ x, Mirrors L b (r n x) (q n' x) := by
  have hq (n : Nat) (hn : d' ≤ n) (x : γ) (s : ReaderState) (hs : s.rest = []) : q n x s = r 0 x s := by
    cases n with
    | zero => rw [hzero'.resolve_left (by omega)]
    | succ n => exact hnil' n x s hn hs
  induction n generalizing n' b with
  | zero =>
    intro hle hle' x
    obtain rfl : b = 0 := by omega
    exact (hzero x).of_nil (hzero x) (fun _ _ => rfl) (hq n' (by omega) x)
  | succ n ih =>
    intro hle hle' x
    cases b with
    | zero =>
      -- The bound of the second reader may be too small for a step, but any other one will do.
      have hstep := hsucc n d' 0 hb (Nat.zero_le _) (by omega) (ih (Nat.zero_le _) (Nat.zero_le _) (by omega)) x
      exact hstep.of_nil (hzero x) (hnil n x) (hq n' (by omega) x)
    | succ b =>
      obtain ⟨n', rfl⟩ : ∃ m, n' = m + 1 := ⟨n' - 1, by omega⟩
      exact hsucc n n' (b + 1) hb hle (by omega) (ih (by omega) (by omega) (by omega)) x

/-- `mirrors_of_succ_all` for readers that depend on their bounds alone. -/
theorem mirrors_of_succ {r q : Nat → Reader α} (d d' : Nat) (hzero : Mirrors L 0 (r 0) (r 0))
    (hzero' : 0 < d' ∨ q 0 = r 0) (hnil : ∀ n s, s.rest = [] → r (n + 1) s = r 0 s)
    (hnil' : ∀ n s, d' ≤ n + 1 → s.rest = [] → q (n + 1) s = r 0 s)
    (hsucc : ∀ n n' b, b ≤ c → b ≤ n + 1 - d → b - 1 + d' ≤ n' → Mirrors L (b - 1) (r n) (q n') →
      Mirrors L b (r (n + 1)) (q (n' + 1))) {n n' : Nat} (hb : b ≤ c) (hn : b ≤ n - d) (hn' : b + d' ≤ n') :
    Mirrors L b (r n) (q n') :=
  mirrors_of_succ_all (r := fun n _ => r n) (q := fun n _ => q n) d d' (fun _ => hzero)
    (hzero'.imp_right fun h => funext fun _ => h) (fun n _ => hnil n) (fun n _ => hnil' n)
    (fun n n' b hb hle hle' ih _ => hsucc n n' b hb hle hle' (ih ())) hb hn hn' ()

/-! ## §4 Passes of loops -/

/-- One pass of `moreItems`; `again` makes the others. -/
def moreItemsPass (item : Reader α) (closing : String) (again : Reader (List α)) : Reader (List α) := do
  if ← eat "," then
    let x ← item
    return x :: (← again)
  else if ← eat closing then
    return []
  else
    unexpected (.oneOf [",", closing])

/-- One pass of `many`. -/
def manyPass (more : ReaderState → Bool) (item : Reader α) (again : Reader (List α)) : Reader (List α) := do
  if more (← get) then
    let x ← item
    return x :: (← again)
  else
    return []

/-- One pass of `statements`. -/
def statementsPass (statement : Reader Statement) (terminators : List String) (again : Reader (List Statement)) :
    Reader (List Statement) := do
  let s ← get
  if s.peekOneOf terminators then
    return []
  else if s.current.isNone then
    unexpected (.oneOf terminators)
  else
    let first ← statement
    return first :: (← again)

/-- One pass of `chain`, with the operands that have been joined so far. -/
def chainPass (level : Nat) (operand : Reader Expr) (again : Expr → Reader Expr) (left : Expr) : Reader Expr := do
  match ← operator? level with
  | none => return left
  | some op =>
    let right ← operand
    let id ← freshId
    again (.binary ⟨id, left.offset⟩ op left right)

section NothingLeft

variable (hs : s.rest = [])

include hs

theorem moreItemsPass_of_nil (item : Reader α) (closing : String) (again : Reader (List α)) :
    moreItemsPass item closing again s = (unexpected (.oneOf [",", closing]) : Reader (List α)) s := by
  have hpeek (text : String) : s.peek text = false := (ReaderState.looks_peek text).of_nil hs
  rw [moreItemsPass, eat_choice, if_neg (by simp [hpeek]), eat_choice, if_neg (by simp [hpeek])]

theorem manyPass_of_nil {more : ReaderState → Bool} (hmore : ReaderState.Looks more) (item : Reader α)
    (again : Reader (List α)) : manyPass more item again s = (pure [] : Reader (List α)) s := by
  rw [manyPass, get_bind, if_neg (by simp [hmore.of_nil hs])]

theorem statementsPass_of_nil (statement : Reader Statement) (terminators : List String)
    (again : Reader (List Statement)) :
    statementsPass statement terminators again s = (unexpected (.oneOf terminators) : Reader (List Statement)) s := by
  have hpeek : s.peekOneOf terminators = false := (ReaderState.looks_peekOneOf terminators).of_nil hs
  rw [statementsPass, get_bind, if_neg (by simp [hpeek]), if_pos (by simp [ReaderState.current, hs])]

theorem chainPass_of_nil (level : Nat) (operand : Reader Expr) (again : Expr → Reader Expr) (left : Expr) :
    chainPass level operand again left s = (pure left : Reader Expr) s := by
  have hnone : operator? level s = .ok none s := by
    simp [operator?_apply, ReaderState.operator?, ReaderState.current, hs]
  rw [chainPass, bind_of_ok hnone]

end NothingLeft

section Passes

variable {item item' : Reader α} {n n' e : Nat} {q : Nat → Reader (List α)}

theorem mirrors_moreItems_of_passes (hitem : Mirrors L b item item') (closing : String)
    (hzero : 0 < e ∨ q 0 = moreItems item closing 0) (hq : ∀ n, q (n + 1) = moreItemsPass item' closing (q n))
    (hn : b ≤ n) (hn' : b + e ≤ n') : Mirrors L b (moreItems item closing n) (q n') := by
  refine mirrors_of_succ 0 e (.unexpected _) hzero (fun _ _ hs => moreItemsPass_of_nil hs ..)
    (fun n s _ hs => (hq n).symm ▸ moreItemsPass_of_nil hs ..) (fun n n' c hc _ _ ih => ?_) (le_refl b) hn hn'
  rw [hq]
  refine .choice "," ?_ (.choice closing (.pure []) (.unexpected _))
  exact (hitem.mono (by omega)).bind fun x => ih.bind fun xs => .pure _

theorem mirrors_many_of_passes {more : ReaderState → Bool} (hmore : ReaderState.Looks more)
    (hitem : Mirrors L b item item') (hadvances : Advances item) (hzero : 0 < e ∨ q 0 = many more item 0)
    (hq : ∀ n, q (n + 1) = manyPass more item' (q n)) (hn : b ≤ n) (hn' : b + e ≤ n') :
    Mirrors L b (many more item n) (q n') := by
  refine mirrors_of_succ 0 e (.pure []) hzero (fun _ _ hs => manyPass_of_nil hs hmore ..)
    (fun n s _ hs => (hq n).symm ▸ manyPass_of_nil hs hmore ..) (fun n n' c hc _ _ ih => ?_) (le_refl b) hn hn'
  rw [hq]
  refine .get_bind fun s s' hnext => ?_
  rw [hmore.sameNext hnext]
  refine .ite ?_ (Mirrors.pure [] s s')
  exact (hitem.mono hc).bind_of_advances (fun _ => 1) hadvances (fun x => ih.bind fun xs => .pure _) s s'

theorem mirrors_statements_of_passes {statement statement' : Reader Statement} {q : Nat → Reader (List Statement)}
    (h : Mirrors L b statement statement') (hadvances : Advances statement) (terminators : List String)
    (hzero : 0 < e ∨ q 0 = statements statement terminators 0)
    (hq : ∀ n, q (n + 1) = statementsPass statement' terminators (q n)) (hn : b ≤ n) (hn' : b + e ≤ n') :
    Mirrors L b (statements statement terminators n) (q n') := by
  refine mirrors_of_succ 0 e (.unexpected _) hzero (fun _ _ hs => statementsPass_of_nil hs ..)
    (fun n s _ hs => (hq n).symm ▸ statementsPass_of_nil hs ..) (fun n n' c hc _ _ ih => ?_) (le_refl b) hn hn'
  rw [hq]
  refine .get_bind fun s s' hnext => ?_
  rw [hnext.peekOneOf, hnext.current]
  refine .ite (Mirrors.pure [] s s') (.ite (Mirrors.unexpected _ s s') ?_)
  exact (h.mono hc).bind_of_advances (fun _ => 1) hadvances (fun first => ih.bind fun _ => .pure _) s s'

/-- An operator that is read is a token. -/
theorem length_of_operator? {level : Nat} {found : Option Operator} {t : ReaderState}
    (h : operator? level s = .ok found t) : t.rest.length + found.elim 0 (fun _ => 1) ≤ s.rest.length := by
  rw [operator?_apply] at h
  split at h
  · rename_i op hop
    split_ifs at h
    · obtain ⟨rfl, rfl⟩ := EStateM.Result.ok.inj h
      obtain ⟨tok, hcurrent, -⟩ := ReaderState.peek_iff.mp (ReaderState.peek_of_operator? hop)
      rw [(ReaderState.Uses.of_current hcurrent).rest, List.length_append, Nat.add_comm]
      rfl
    · obtain ⟨rfl, rfl⟩ := EStateM.Result.ok.inj h
      exact le_rfl
  · obtain ⟨rfl, rfl⟩ := EStateM.Result.ok.inj h
    exact le_rfl

theorem mirrors_chain_of_passes {operand operand' : Reader Expr} {q : Nat → Expr → Reader Expr} (level : Nat)
    (hoperand : Mirrors L b operand operand') (hzero : 0 < e ∨ q 0 = chain level operand 0)
    (hq : ∀ n, q (n + 1) = chainPass level operand' (q n)) (hn : b ≤ n) (hn' : b + e ≤ n') (left : Expr) :
    Mirrors L b (chain level operand n left) (q n' left) := by
  refine mirrors_of_succ_all 0 e (fun left => .pure left) hzero (fun _ _ _ hs => chainPass_of_nil hs ..)
    (fun n _ s _ hs => (hq n).symm ▸ chainPass_of_nil hs ..) (fun n n' c hc _ _ ih left => ?_) (le_refl b) hn hn' left
  rw [hq]
  refine (Mirrors.operator? level).bind_of_advances (fun found => found.elim 0 fun _ => 1)
    (fun s found t h => length_of_operator? h) fun found => ?_
  cases found with
  | none => exact .pure left
  | some op =>
    have hless : Mirrors L (c - 1) operand operand' := hoperand.mono (by omega)
    exact hless.bind fun right => .freshId_bind fun id => ih _

end Passes

/-! ## §5 Sequences -/

section Sequences

variable {item item' : Reader α} {n n' : Nat}

theorem mirrors_commaSeparated (hitem : Mirrors L b item item') (closing : String) (hn : b ≤ n) (hn' : b ≤ n') :
    Mirrors L b (commaSeparated item closing n) (commaSeparated item' closing n') := by
  have hmore : Mirrors L b (moreItems item closing n) (moreItems item' closing n') :=
    mirrors_moreItems_of_passes (e := 0) hitem closing (.inr rfl) (fun _ => rfl) hn hn'
  exact .choice closing (.pure []) (hitem.bind fun x => hmore.bind fun _ => .pure _)

theorem mirrors_many {more : ReaderState → Bool} (hmore : ReaderState.Looks more) (hitem : Mirrors L b item item')
    (hadvances : Advances item) (hn : b ≤ n) (hn' : b ≤ n') : Mirrors L b (many more item n) (many more item' n') :=
  mirrors_many_of_passes (e := 0) hmore hitem hadvances (.inr rfl) (fun _ => rfl) hn hn'

theorem mirrors_operands {operand operand' : Reader Expr} (hoperand : Mirrors L b operand operand')
    (hadvances : Advances operand) (level : Nat) (hn : b - 1 ≤ n) (hn' : b - 1 ≤ n') :
    Mirrors L b (operands level operand n) (operands level operand' n') :=
  hoperand.bind_of_advances (fun _ => 1) hadvances
    (mirrors_chain_of_passes (e := 0) level (hoperand.mono (Nat.sub_le b 1)) (.inr rfl) (fun _ => rfl) hn hn')

theorem mirrors_block {statement statement' : Reader Statement} (h : Mirrors L b statement statement')
    (hadvances : Advances statement) (terminators : List String) (hn : b ≤ n) (hn' : b ≤ n') :
    Mirrors L b (block statement terminators n) (block statement' terminators n') := by
  have hall : Mirrors L b (statements statement terminators n) (statements statement' terminators n') :=
    mirrors_statements_of_passes (e := 0) h hadvances terminators (.inr rfl) (fun _ => rfl) hn hn'
  exact hall.bind fun _ => .ite (.offset_bind fun _ => .throw _) (.pure _)

end Sequences

/-! ## §6 Expressions -/

section Expression

variable {expression expression' : Reader Expr} {n n' : Nat}

theorem mirrors_literal (offset : Nat) (value : Literal) : Mirrors L b (literal offset value) (literal offset value) :=
  .bind .advance fun _ => .freshId_bind fun _ => .pure _

section Levels

variable (h : Mirrors L (b - 1) expression expression') (hn : b - 1 ≤ n) (hn' : b - 1 ≤ n')

include h hn hn'

theorem mirrors_named : Mirrors L b (named expression n) (named expression' n') := by
  refine .offset_bind fun start => .bind .identifier fun name => .choice "(" ?_ (.choice "[" ?_ ?_)
  · exact (mirrors_commaSeparated h ")" hn hn').bind fun _ => .freshId_bind fun _ => .pure _
  · exact h.bind fun _ => .bind (.expect _) fun _ => .freshId_bind fun _ => .pure _
  · exact .freshId_bind fun _ => .pure _

theorem mirrors_primary : Mirrors L b (primary expression n) (primary expression' n') := by
  refine .get_bind fun s s' hnext => ?_
  rw [← hnext.current]
  cases hcurrent : s.current with
  | none => exact Mirrors.unexpected _ s s'
  | some tok =>
    simp only
    cases tok.kind with
    | identifier =>
      simp only
      cases constantOf? tok.text with
      | some value => exact mirrors_literal _ _ s s'
      | none => exact .ite (Mirrors.unexpected _ s s') (mirrors_named h hn hn' s s')
    | operator =>
      refine .ite (.advance_bind hcurrent ?_) (Mirrors.unexpected _ s s')
      exact h.bind fun _ => .bind (.expect _) fun _ => .freshId_bind fun _ => .pure _
    | integer | decimal | character | string =>
      simp only
      cases literalOf? tok with
      | some value => exact mirrors_literal _ _ s s'
      | none => exact Mirrors.throw _ s s'

variable (hread : Phrase.expression.ReadBy expression)

include hread

theorem mirrors_multiplicative : Mirrors L b (multiplicative expression n) (multiplicative expression' n') :=
  mirrors_operands (mirrors_primary h hn hn') (advances_of_readBy (readBy_primary hread n) Expr.symbols_ne_nil) 4 hn hn'

theorem mirrors_additive : Mirrors L b (additive expression n) (additive expression' n') :=
  mirrors_operands (mirrors_multiplicative h hn hn' hread)
    (advances_of_readBy (readBy_multiplicative hread n) Expr.symbols_ne_nil) 3 hn hn'

theorem mirrors_comparison : Mirrors L b (comparison expression n) (comparison expression' n') :=
  mirrors_operands (mirrors_additive h hn hn' hread)
    (advances_of_readBy (readBy_additive hread n) Expr.symbols_ne_nil) 2 hn hn'

theorem mirrors_logical : Mirrors L b (logical expression n) (logical expression' n') :=
  mirrors_operands (mirrors_comparison h hn hn' hread)
    (advances_of_readBy (readBy_comparison hread n) Expr.symbols_ne_nil) 1 hn hn'

end Levels

end Expression

/-- Where no token is left, there is no expression, whatever reads the expressions inside it. -/
theorem logical_of_nil (hs : s.rest = []) (expression : Reader Expr) (n : Nat) :
    logical expression n s = (unexpected .expression : Reader Expr) s := by
  have hprimary : primary expression n s = .error (s.unexpected .expression) s := by
    simp [primary, ReaderState.current, hs]
  have hlevel {level : Nat} {operand : Reader Expr} (h : operand s = .error (s.unexpected .expression) s) :
      operands level operand n s = .error (s.unexpected .expression) s := bind_of_error h
  exact hlevel (hlevel (hlevel (hlevel hprimary)))

theorem expressionWithin_of_nil (hs : s.rest = []) (n : Nat) :
    expressionWithin n s = (unexpected .expression : Reader Expr) s := by
  cases n with
  | zero => rfl
  | succ n => exact logical_of_nil hs _ _

/-- Whatever takes the steps of an expression from some reader on mirrors the reader of expressions. -/
theorem mirrors_expressionWithin {q : Nat → Reader Expr} {n n' e : Nat} (hzero : 0 < e ∨ q 0 = expressionWithin 0)
    (hq : ∀ n, q (n + 1) = logical (q n) n) (hn : b ≤ n) (hn' : b + e ≤ n') :
    Mirrors L b (expressionWithin n) (q n') := by
  refine mirrors_of_succ 0 e (.unexpected _) hzero (fun n s hs => expressionWithin_of_nil hs (n + 1))
    (fun n s _ hs => (hq n).symm ▸ logical_of_nil hs ..) (fun n n' c hc hle hle' ih => ?_) (le_refl b) hn hn'
  rw [hq]
  exact mirrors_logical ih (by omega) (by omega) (readBy_expressionWithin n)

theorem advances_expressionWithin (n : Nat) : Advances (expressionWithin n) :=
  advances_of_readBy (readBy_expressionWithin n) Expr.symbols_ne_nil

/-! ## §7 Statements -/

section Statement

variable {expression expression' : Reader Expr} {statement statement' : Reader Statement} {n n' : Nat}

theorem mirrors_initializer? (h : Mirrors L b expression expression') :
    Mirrors L b (initializer? expression) (initializer? expression') :=
  .choice "=" ((h.mono (Nat.sub_le b 1)).bind fun _ => .pure _) (.pure _)

theorem mirrors_declaration (h : Mirrors L b expression expression') (start : Nat) :
    Mirrors L b (declaration expression start) (declaration expression' start) :=
  .freshId_bind fun _ => .bind .identifier fun _ => .bind .typeName? fun _ => (mirrors_initializer? h).bind fun _ =>
    .bind (.expect _) fun _ => .pure _

theorem mirrors_returned (h : Mirrors L b expression expression') (start : Nat) :
    Mirrors L b (returned expression start) (returned expression' start) :=
  h.bind fun _ => .bind (.expect _) fun _ => .pure _

theorem mirrors_effect (h : Mirrors L b expression expression') (start : Nat) :
    Mirrors L b (effect expression start) (effect expression' start) :=
  h.bind fun _ => .choice "=" ((h.mono (Nat.sub_le b 1)).bind fun _ => .bind (.expect _) fun _ => .pure _)
    (.bind (.expect _) fun _ => .pure _)

section Nested

variable (h : Mirrors L b expression expression') (hstatement : Mirrors L b statement statement')
  (hadvances : Advances statement) (hn : b ≤ n) (hn' : b ≤ n') (start : Nat)

include h hstatement hadvances hn hn'

theorem mirrors_loop : Mirrors L b (loop expression statement n start) (loop expression' statement' n' start) :=
  h.bind fun _ => .bind (.expect _) fun _ => (mirrors_block hstatement hadvances _ hn hn').bind fun _ =>
    .bind (.expect _) fun _ => .pure _

theorem mirrors_conditional : Mirrors L b (conditional expression statement n start)
    (conditional expression' statement' n' start) := by
  refine h.bind fun _ => .bind (.expect _) fun _ => (mirrors_block hstatement hadvances _ hn hn').bind fun _ => ?_
  refine .choice "ELSE" ?_ (.bind (.pure []) fun _ => .bind (.expect _) fun _ => .pure _)
  have hblock := mirrors_block hstatement hadvances ["END"] hn hn'
  exact (hblock.mono (Nat.sub_le b 1)).bind fun _ => .bind (.expect _) fun _ => .pure _

theorem mirrors_valueCase : Mirrors L b (valueCase expression statement n) (valueCase expression' statement' n') :=
  .offset_bind fun _ => .bind .advance fun _ => h.bind fun _ => .bind (.expect _) fun _ =>
    (mirrors_block hstatement hadvances _ hn hn').bind fun _ => .pure _

omit h in
/-- An arm of a switch has an expression at least. -/
theorem advances_valueCase (hexpression : Advances expression) : Advances (valueCase expression statement n) := by
  have hbody (start : Nat) : Advances (expression >>= fun value => expect ":" >>= fun _ =>
      block statement ["CASE", "DEFAULT", "END"] n >>= fun body => pure (Case.mk start (some value) body)) :=
    hexpression.bind fun _ => .bind (.expect _) fun _ => (mirrors_block hstatement hadvances _ hn hn').bind fun _ =>
      .pure _
  exact fun s x t h => (Advances.advance_bind fun _ => hbody s.offset) s x t h

theorem mirrors_switch (hexpression : Advances expression) : Mirrors L b (switch expression statement n start)
    (switch expression' statement' n' start) := by
  have hcase := mirrors_valueCase h hstatement hadvances hn hn'
  have hcases := mirrors_many (ReaderState.looks_peek "CASE") hcase
    (advances_valueCase hstatement hadvances hn hn' hexpression) hn hn'
  refine h.bind fun _ => hcases.bind fun _ => .offset_bind fun _ => .bind (.expect _) fun _ => ?_
  exact (mirrors_block hstatement hadvances _ hn hn').bind fun _ => .bind (.expect _) fun _ => .pure _

end Nested

theorem mirrors_statementOf (h : Mirrors L b expression expression') (hexpression : Advances expression)
    (hstatement : Mirrors L (b - 1) statement statement') (hadvances : Advances statement) (hn : b - 1 ≤ n)
    (hn' : b - 1 ≤ n') :
    Mirrors L b (statementOf expression statement n) (statementOf expression' statement' n') := by
  have hless := h.mono (Nat.sub_le b 1)
  refine .offset_bind fun start => .choice "LET" (mirrors_declaration hless start) ?_
  refine .choice "SWITCH" (mirrors_switch hless hstatement hadvances hn hn' start hexpression) ?_
  refine .choice "IF" (mirrors_conditional hless hstatement hadvances hn hn' start) ?_
  refine .choice "WHILE" (mirrors_loop hless hstatement hadvances hn hn' start) ?_
  exact .choice "RETURN" (mirrors_returned hless start) (mirrors_effect h start)

end Statement

theorem advances_statementWithin (n : Nat) : Advances (statementWithin n) :=
  advances_of_readBy (readBy_statementWithin n) Statement.symbols_ne_nil

/-- Where no token is left, there is no statement. -/
theorem statementOf_of_nil {expression : Reader Expr} (hs : s.rest = [])
    (h : expression s = (unexpected .expression : Reader Expr) s) (statement : Reader Statement) (n : Nat) :
    statementOf expression statement n s = (unexpected .expression : Reader Statement) s := by
  have hpeek (text : String) : s.peek text = false := (ReaderState.looks_peek text).of_nil hs
  simp only [statementOf, offset_bind, eat_choice, hpeek, Bool.false_eq_true, if_false]
  exact bind_of_error h

/-- Whatever takes the steps of a statement from some readers on mirrors the reader of statements. -/
theorem mirrors_statementWithin {q : Nat → Reader Expr} {r : Nat → Reader Statement} {n n' e : Nat}
    (hzero : 0 < e ∨ q 0 = expressionWithin 0) (hq : ∀ n, q (n + 1) = logical (q n) n)
    (hr : ∀ n, r (n + 1) = statementOf (q n) (r n) n) (hn : b ≤ n - 1) (hn' : b + (e + 1) ≤ n') :
    Mirrors L b (statementWithin n) (r n') := by
  have hnil (n : Nat) (s : ReaderState) (hn : e + 1 ≤ n + 1) (hs : s.rest = []) :
      r (n + 1) s = statementWithin 0 s := by
    rw [hr]
    refine statementOf_of_nil hs ?_ _ _
    cases n with
    | zero =>
      rw [hzero.resolve_left (by omega)]
      rfl
    | succ n =>
      rw [hq]
      exact logical_of_nil hs _ _
  refine mirrors_of_succ 1 (e + 1) (.unexpected _) (.inl e.succ_pos)
    (fun n s hs => statementOf_of_nil hs (expressionWithin_of_nil hs n) _ _) hnil
    (fun n n' c hc hle hle' ih => ?_) (le_refl b) hn hn'
  have hexpression : Mirrors L c (expressionWithin n) (q n') := mirrors_expressionWithin hzero hq hle (by omega)
  rw [hr]
  exact mirrors_statementOf hexpression (advances_expressionWithin n) ih (advances_statementWithin n) (by omega)
    (by omega)

/-! ## §8 Programs -/

section Program

variable {n n' : Nat}

theorem mirrors_element {expression expression' : Reader Expr} (h : Mirrors L b expression expression') :
    Mirrors L b (advance *> expression) (advance *> expression') := by
  have hbind : Mirrors L b (advance >>= fun _ => expression) (advance >>= fun _ => expression') :=
    .bind .advance fun _ => h
  exact hbind

theorem advances_element {expression : Reader Expr} (hexpression : Advances expression) :
    Advances (advance *> expression) :=
  .advance_bind (k := fun _ => expression) fun _ => hexpression

theorem mirrors_listLiteral {expression expression' : Reader Expr} (h : Mirrors L b expression expression')
    (hexpression : Advances expression) (hn : b ≤ n) (hn' : b ≤ n') :
    Mirrors L b (listLiteral expression n) (listLiteral expression' n') := by
  have hmore := mirrors_many (ReaderState.looks_peek ",") (mirrors_element h) (advances_element hexpression) hn hn'
  exact .offset_bind fun _ => .freshId_bind fun _ => .bind (.expect _) fun _ => h.bind fun _ => hmore.bind fun _ =>
    .bind (.expect _) fun _ => .pure _

theorem mirrors_globalOf {expression expression' : Reader Expr} (h : Mirrors L b expression expression')
    (hexpression : Advances expression) (hn : b ≤ n) (hn' : b ≤ n') :
    Mirrors L b (globalOf expression n) (globalOf expression' n') := by
  have hbody (node : Node) : Mirrors L b (globalBody expression n node) (globalBody expression' n' node) := by
    refine Mirrors.choice "LIST" (Mirrors.mono ?_ (Nat.sub_le b 1))
      (.choice "VAR" (Mirrors.mono ?_ (Nat.sub_le b 1)) ?_)
    · exact .bind .identifier fun _ => .bind (.expect _) fun _ => .bind .identifier fun _ => .bind (.expect _) fun _ =>
        (mirrors_listLiteral h hexpression hn hn').bind fun _ => .pure _
    · exact .bind .identifier fun _ => .bind .typeName? fun _ => (mirrors_initializer? h).bind fun _ => .pure _
    · exact .bind (.expect _) fun _ => .bind .identifier fun _ => .bind .typeName? fun _ => .bind (.expect _) fun _ =>
        h.bind fun _ => .pure _
  exact .offset_bind fun _ => .freshId_bind fun _ => (hbody _).bind fun _ => .bind (.expect _) fun _ => .pure _

theorem advances_globalOf {expression : Reader Expr} (h : Phrase.expression.ReadBy expression) (n : Nat) :
    Advances (globalOf expression n) :=
  advances_of_readBy (readBy_globalOf h n) (by simp [Phrase.global, Global.symbols])

theorem mirrors_parameter : Mirrors L b parameter parameter :=
  .freshId_bind fun _ => .offset_bind fun _ => .bind .identifier fun _ => .bind (.expect _) fun _ =>
    .bind .identifier fun _ => .pure _

theorem mirrors_functionOf {statement statement' : Reader Statement} (h : Mirrors L (b - 1) statement statement')
    (hadvances : Advances statement) (hn : b ≤ n) (hn' : b ≤ n') :
    Mirrors L b (functionOf statement n) (functionOf statement' n') := by
  refine .offset_bind fun _ => .freshId_bind fun _ => .expect_bind "FUN" fun _ => .bind .identifier fun _ => ?_
  refine .bind (.expect _) fun _ => ?_
  refine (mirrors_commaSeparated mirrors_parameter ")" (by omega) (by omega)).bind fun _ => ?_
  exact .bind .typeName? fun _ => .bind (.expect _) fun _ =>
    (mirrors_block h hadvances _ (by omega) (by omega)).bind fun _ => .bind (.expect _) fun _ => .pure _

theorem advances_functionOf {statement : Reader Statement} (h : Phrase.statement.ReadBy statement) (n : Nat) :
    Advances (functionOf statement n) :=
  advances_of_readBy (readBy_functionOf h n) (by simp [Phrase.function, Function.symbols])

/-- Whatever takes the steps of a program from some readers on mirrors the reader of programs. -/
theorem mirrors_programOf {q : Nat → Reader Expr} {r : Nat → Reader Statement} {e : Nat}
    (hzero : 0 < e ∨ q 0 = expressionWithin 0) (hq : ∀ n, q (n + 1) = logical (q n) n)
    (hr : ∀ n, r (n + 1) = statementOf (q n) (r n) n) (hn : b ≤ n) (hn' : b + (e + 1) ≤ n') :
    Mirrors L b (programOf (globalOf (expressionWithin n) n) (functionOf (statementWithin n) n) n)
      (programOf (globalOf (q n') n') (functionOf (r n') n') n') := by
  have hexpression : Mirrors L b (expressionWithin n) (q n') := mirrors_expressionWithin hzero hq hn (by omega)
  have hstatement : Mirrors L (b - 1) (statementWithin n) (r n') :=
    mirrors_statementWithin hzero hq hr (by omega) (by omega)
  have hle : b ≤ n' := by omega
  have hglobals := mirrors_many (ReaderState.looks_peekOneOf ["LIST", "VAR", "VAL"])
    (mirrors_globalOf hexpression (advances_expressionWithin n) hn hle)
    (advances_globalOf (readBy_expressionWithin n) n) hn hle
  have hfunctions := mirrors_many (ReaderState.looks_peek "FUN")
    (mirrors_functionOf hstatement (advances_statementWithin n) hn hle)
    (advances_functionOf (readBy_statementWithin n) n) hn hle
  refine hglobals.bind fun globals => hfunctions.bind fun functions => .get_bind fun s s' hnext => ?_
  rw [hnext.current, hnext.offset]
  exact .ite (Mirrors.unexpected _ s s') (.ite (Mirrors.throw _ s s') (Mirrors.pure _ s s'))

theorem many_of_nil (hs : s.rest = []) {more : ReaderState → Bool} (hmore : ReaderState.Looks more) (item : Reader α)
    (n : Nat) : many more item n s = .ok [] s := by
  cases n with
  | zero => rfl
  | succ n => exact manyPass_of_nil hs hmore item _

/-- A program has a function. -/
theorem advances_programOf {global : Reader Global} {function : Reader Function} (hglobal : Phrase.global.ReadBy global)
    (hfunction : Phrase.function.ReadBy function) (n : Nat) : Advances (programOf global function n) := by
  intro s p t h
  obtain ⟨-, hrest⟩ := read_of_programOf hglobal hfunction h
  rw [hrest]
  refine List.length_pos_iff.mpr fun hnil => ?_
  have hglobals := many_of_nil hnil (ReaderState.looks_peekOneOf ["LIST", "VAR", "VAL"]) global n
  have hfunctions := many_of_nil hnil (ReaderState.looks_peek "FUN") function n
  rw [programOf, bind_of_ok hglobals, bind_of_ok hfunctions, get_bind] at h
  simp [ReaderState.current, hnil] at h

end Program

end Reader

end BlockLang
