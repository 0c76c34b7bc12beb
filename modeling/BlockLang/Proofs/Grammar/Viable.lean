import BlockLang.Proofs.Grammar.Language

/-!
# Tokens that can be continued

A reader that fails has consumed tokens that some further tokens complete to a phrase of its kind, and its error blames
the place behind them.  `Reader.Follows` says so of a reader and a form of the grammar, together with what holds if the
reader succeeds; the forms of the readers that a reader is put together from make up the form of the reader.

## Layers

- `Ebnf.Viable`: tokens that begin something that derives from a form.
- `Reader.FollowsAt`, `Reader.Follows`: what a reader consumes, whether it succeeds or fails.

## Main statement

- `viable_of_parse_error`: the tokens before a grammar error begin a program.
-/

namespace BlockLang

open BlockLang.Symbol

/-! ## §1 Proper tokens -/

/-- Punctuation is scanned as an operator. -/
theorem proper_of_mem_marks {text : String} (h : text ∈ marks) : Token.Proper ⟨.operator, text, 0⟩ := by
  have htokens : ∀ text ∈ marks, tokenize text = .ok [⟨.operator, text, 0⟩] := by decide +kernel
  exact form_of_mem_tokenize (htokens text h) _ (List.mem_singleton_self _)

/-- A reserved word is scanned as an identifier. -/
theorem proper_of_mem_keywords {text : String} (h : text ∈ keywords) : Token.Proper ⟨.identifier, text, 0⟩ := by
  have htokens : ∀ text ∈ keywords, tokenize text = .ok [⟨.identifier, text, 0⟩] := by decide +kernel
  exact form_of_mem_tokenize (htokens text h) _ (List.mem_singleton_self _)

namespace Ebnf

variable {f g k : Form} {ts us : List Token} {text : String}

/-! ## §2 Forms that derive the same -/

theorem Derives.regroup (h : Derives (.seq f (.seq g k)) ts) : Derives (.seq (.seq f g) k) ts := by
  cases h with
  | seq hf h =>
    cases h with
    | seq hg hk =>
      rw [← List.append_assoc]
      exact .seq (.seq hf hg) hk

theorem Derives.ungroup (h : Derives (.seq (.seq f g) k) ts) : Derives (.seq f (.seq g k)) ts := by
  cases h with
  | seq h hk =>
    cases h with
    | seq hf hg =>
      rw [List.append_assoc]
      exact .seq hf (.seq hg hk)

theorem Derives.map_first (hfg : ∀ ts, Derives f ts → Derives g ts) (h : Derives (.seq f k) ts) :
    Derives (.seq g k) ts := by
  cases h with
  | seq hf hk => exact .seq (hfg _ hf) hk

theorem Derives.map_second (hfg : ∀ ts, Derives f ts → Derives g ts) (h : Derives (.seq k f) ts) :
    Derives (.seq k g) ts := by
  cases h with
  | seq hk hf => exact .seq hk (hfg _ hf)

theorem Derives.seq_empty (h : Derives (.seq f .empty) ts) : Derives f ts := by
  cases h with
  | seq hf hempty =>
    cases hempty
    rwa [List.append_nil]

theorem Derives.many_of_some (h : Derives f.some ts) : Derives (.many f) ts := by
  cases h with
  | seq hf hmany => exact .more hf hmany

/-- What may stand before a form. -/
theorem Derives.optional (h : Derives (.alt (.seq f (.seq g k)) k) ts) :
    Derives (.seq (Form.optional (.seq f g)) k) ts := by
  cases h with
  | first h => exact h.regroup.map_first fun _ => .first
  | second h => exact .seq (.second .empty) h

/-- The alternatives of a primary expression that begin with no literal. -/
theorem Derives.primary (h : Derives (Form.oneOf (Form.row [.text "(", .rule .expression, .text ")"])
    [Form.row [.identifier, Form.optional (Form.row [.text "(", Form.optional (Form.separated (.rule .expression)),
      .text ")"])], Form.row [.identifier, .text "[", .rule .expression, .text "]"]]) ts) :
    Derives (.rule .primary) ts :=
  .rule (.second (.second (.second (.second (.second (.second (.second h)))))))

/-! ## §3 Viable tokens -/

/-- Proper tokens can be added such that the form derives all of them. -/
def Viable (f : Form) (ts : List Token) : Prop :=
  ∃ more : List Token, (∀ t ∈ more, t.Proper) ∧ Derives f (ts ++ more)

theorem Derives.viable (h : Derives f ts) : Viable f ts :=
  ⟨[], by simp, by rwa [List.append_nil]⟩

theorem Viable.mono (hfg : ∀ ts, Derives f ts → Derives g ts) (h : Viable f ts) : Viable g ts := by
  obtain ⟨more, hmore, hderives⟩ := h
  exact ⟨more, hmore, hfg _ hderives⟩

/-- Behind tokens that are continued to the first part, the second part can be added. -/
theorem Viable.seq (h : Viable f ts) (hg : Viable g []) : Viable (.seq f g) ts := by
  obtain ⟨more, hmore, hderives⟩ := h
  obtain ⟨later, hlater, hderives'⟩ := hg
  refine ⟨more ++ later, List.forall_mem_append.mpr ⟨hmore, hlater⟩, ?_⟩
  rw [← List.append_assoc]
  exact .seq hderives hderives'

theorem Viable.seq_right (h : Derives f ts) (hg : Viable g us) : Viable (.seq f g) (ts ++ us) := by
  obtain ⟨more, hmore, hderives⟩ := hg
  exact ⟨more, hmore, by rw [List.append_assoc]; exact .seq h hderives⟩

theorem Viable.rule {r : Rule} (h : Viable (production r) ts) : Viable (.rule r) ts :=
  h.mono fun _ => .rule

theorem Viable.second (h : Viable g ts) : Viable (.alt f g) ts :=
  h.mono fun _ => .second

theorem viable_none : Viable (.many f) [] :=
  Derives.viable .stop

/-- Where any number of phrases can follow, so can at least one. -/
theorem Viable.seq_some (h : Viable (.seq f (.many g)) ts) (hg : Viable g []) : Viable (.seq f g.some) ts := by
  obtain ⟨more, hmore, hderives⟩ := h
  generalize hall : ts ++ more = all at hderives
  cases hderives with
  | seq hf hmany =>
    cases hmany with
    | stop =>
      obtain ⟨later, hlater, hsome⟩ := hg.seq (viable_none (f := g))
      refine ⟨more ++ later, List.forall_mem_append.mpr ⟨hmore, hlater⟩, ?_⟩
      rw [← List.append_assoc, hall, List.append_nil]
      exact .seq hf hsome
    | more ha hmany => exact ⟨more, hmore, by rw [hall]; exact .seq hf (.seq ha hmany)⟩

theorem viable_text (h : text ∈ marks ∨ text ∈ keywords) : Viable (.text text) [] := by
  rcases h with h | h
  · exact ⟨[⟨.operator, text, 0⟩], List.forall_mem_singleton.mpr (proper_of_mem_marks h), .text rfl⟩
  · exact ⟨[⟨.identifier, text, 0⟩], List.forall_mem_singleton.mpr (proper_of_mem_keywords h), .text rfl⟩

theorem viable_identifier : Viable .identifier [] :=
  ⟨[⟨.identifier, "x", 0⟩], List.forall_mem_singleton.mpr ⟨'x', [], rfl, rfl, by simp⟩, .identifier rfl rfl⟩

theorem viable_absent : Viable (Form.optional f) [] :=
  Viable.second (Derives.viable .empty)

/-- There is an expression. -/
theorem viable_expression : Viable (.rule .expression) [] := by
  refine ⟨[⟨.identifier, "NIL", 0⟩], ?_, ?_⟩
  · exact List.forall_mem_singleton.mpr (proper_of_mem_keywords (by decide))
  · exact writes_of_wellFormed (e := .literal .blank .nil) trivial _ rfl

/-- There is a statement. -/
theorem viable_statement : Viable (.rule .statement) [] := by
  refine Viable.rule (Viable.second (Viable.second (Viable.second (Viable.second (Viable.second ?_)))))
  exact viable_expression.seq (viable_absent.seq (viable_text (by decide)))

end Ebnf

/-! ## §4 What readers consume -/

/-- Between two places these tokens have been consumed. -/
structure ReaderState.Uses (s : ReaderState) (used : List Token) (t : ReaderState) : Prop where
  rest : s.rest = used ++ t.rest
  endOffset : t.endOffset = s.endOffset

namespace ReaderState.Uses

variable {s t u : ReaderState} {a b : List Token}

theorem refl (s : ReaderState) : s.Uses [] s := ⟨rfl, rfl⟩

theorem trans (h : s.Uses a t) (g : t.Uses b u) : s.Uses (a ++ b) u :=
  ⟨by rw [h.rest, g.rest, List.append_assoc], g.endOffset.trans h.endOffset⟩

theorem proper (h : s.Uses a t) (hs : s.Proper) : t.Proper := by
  intro tok htok
  exact hs tok (by rw [h.rest]; exact List.mem_append_right _ htok)

theorem of_current {tok : Token} (h : s.current = some tok) : s.Uses [tok] s.advance := by
  obtain ⟨more, hrest⟩ : ∃ more, s.rest = tok :: more := List.head?_eq_some_iff.mp h
  exact ⟨by simp [ReaderState.advance, hrest], rfl⟩

end ReaderState.Uses

/-- The error is about the token that is next, or the end, and about no literal. -/
def GrammarError.Blames (e : GrammarError) (s : ReaderState) : Prop :=
  e.offset = s.offset ∧ ∀ text offset, e ≠ .invalidLiteral text offset

theorem ReaderState.unexpected_blames (s : ReaderState) (expected : Expectation) :
    (s.unexpected expected).Blames s := by
  unfold GrammarError.Blames ReaderState.unexpected ReaderState.offset
  cases s.current with
  | none => exact ⟨rfl, fun _ _ => GrammarError.noConfusion⟩
  | some tok => exact ⟨rfl, fun _ _ => GrammarError.noConfusion⟩

namespace Reader

open Stateful Ebnf

variable {α β : Type} {f g : Form} {s t : ReaderState}

/-- At a place the reader consumes what derives from the form, or fails behind tokens that can be continued to that. -/
structure FollowsAt (r : Reader α) (f : Form) (s : ReaderState) : Prop where
  ok {x : α} {t : ReaderState} : r s = .ok x t → ∃ used, s.Uses used t ∧ Derives f used
  error {e : GrammarError} {t : ReaderState} : r s = .error e t →
    ∃ used, s.Uses used t ∧ Viable f used ∧ e.Blames t

/-- The reader consumes what derives from the form, or fails behind tokens that can be continued to that. -/
structure Follows (r : Reader α) (f : Form) : Prop where
  viable : Viable f []
  followsAt : ∀ s : ReaderState, s.Proper → FollowsAt r f s

theorem FollowsAt.mono {r : Reader α} (h : FollowsAt r f s) (hfg : ∀ ts, Derives f ts → Derives g ts) :
    FollowsAt r g s := by
  constructor
  · intro x t hx
    obtain ⟨used, huses, hderives⟩ := h.ok hx
    exact ⟨used, huses, hfg _ hderives⟩
  · intro e t he
    obtain ⟨used, huses, hviable, hblames⟩ := h.error he
    exact ⟨used, huses, hviable.mono hfg, hblames⟩

theorem Follows.mono {r : Reader α} (h : Follows r f) (hfg : ∀ ts, Derives f ts → Derives g ts) : Follows r g :=
  ⟨h.viable.mono hfg, fun s hs => (h.followsAt s hs).mono hfg⟩

theorem FollowsAt.congr {r r' : Reader α} (h : FollowsAt r f s) (hr : r' s = r s) : FollowsAt r' f s :=
  ⟨fun hx => h.ok (hr.symm.trans hx), fun he => h.error (hr.symm.trans he)⟩

/-- A reader that succeeds. -/
theorem FollowsAt.of_ok {r : Reader α} {x : α} {used : List Token} (h : r s = .ok x t) (huses : s.Uses used t)
    (hderives : Derives f used) : FollowsAt r f s := by
  constructor
  · intro y u hy
    obtain ⟨-, rfl⟩ := EStateM.Result.ok.inj (h.symm.trans hy)
    exact ⟨used, huses, hderives⟩
  · intro e u he
    rw [h] at he
    cases he

/-- A reader that fails right away. -/
theorem FollowsAt.unexpected {expected : Expectation} (hf : Viable f []) :
    FollowsAt (unexpected expected : Reader α) f s := by
  constructor
  · intro x t hx
    simp at hx
  · intro e t he
    obtain ⟨rfl, rfl⟩ := EStateM.Result.error.inj he
    exact ⟨[], .refl s, hf, s.unexpected_blames expected⟩

/-! ## §5 Putting readers together -/

theorem FollowsAt.pure (x : α) : FollowsAt (pure x) .empty s :=
  .of_ok rfl (.refl s) .empty

theorem Follows.pure (x : α) : Follows (pure x) .empty :=
  ⟨Derives.viable .empty, fun _ _ => .pure x⟩

/-- Two readers in a row consume two forms in a row. -/
theorem FollowsAt.bind {r : Reader α} {k : α → Reader β} (hs : s.Proper) (hr : FollowsAt r f s) (hg : Viable g [])
    (hk : ∀ x t, t.Proper → FollowsAt (k x) g t) : FollowsAt (r >>= k) (.seq f g) s := by
  constructor
  · intro y u hy
    obtain ⟨x, t, hx, hy⟩ := bind_eq_ok.mp hy
    obtain ⟨used, huses, hderives⟩ := hr.ok hx
    obtain ⟨later, huses', hderives'⟩ := (hk x t (huses.proper hs)).ok hy
    exact ⟨used ++ later, huses.trans huses', .seq hderives hderives'⟩
  · intro e u he
    -- Either the first reader fails, or it succeeds and the second one fails.
    cases hx : r s with
    | error e' t =>
      rw [bind_of_error hx] at he
      obtain ⟨rfl, rfl⟩ := EStateM.Result.error.inj he
      obtain ⟨used, huses, hviable, hblames⟩ := hr.error hx
      exact ⟨used, huses, hviable.seq hg, hblames⟩
    | ok x t =>
      rw [bind_of_ok hx] at he
      obtain ⟨used, huses, hderives⟩ := hr.ok hx
      obtain ⟨later, huses', hviable, hblames⟩ := (hk x t (huses.proper hs)).error he
      exact ⟨used ++ later, huses.trans huses', .seq_right hderives hviable, hblames⟩

theorem Follows.bind [Inhabited α] {r : Reader α} {k : α → Reader β} (hr : Follows r f)
    (hk : ∀ x, Follows (k x) g) : Follows (r >>= k) (.seq f g) :=
  ⟨hr.viable.seq (hk default).viable,
    fun s hs => .bind hs (hr.followsAt s hs) (hk default).viable fun x t ht => (hk x).followsAt t ht⟩

/-- What follows consumes nothing. -/
theorem Follows.last [Inhabited α] {r : Reader α} {k : α → Reader β} (hr : Follows r f)
    (hk : ∀ x, Follows (k x) .empty) : Follows (r >>= k) f :=
  (hr.bind hk).mono fun _ => Derives.seq_empty

theorem Follows.get_bind {k : ReaderState → Reader β} (h : ∀ s : ReaderState, s.Proper → FollowsAt (k s) f s)
    (hf : Viable f []) : Follows (get >>= k) f :=
  ⟨hf, fun s hs => (h s hs).congr rfl⟩

theorem Follows.offset_bind {k : Nat → Reader β} (h : ∀ offset, Follows (k offset) f) : Follows (offset >>= k) f :=
  ⟨(h 0).viable, fun s hs => ((h s.offset).followsAt s hs).congr rfl⟩

/-- Handing out an id consumes nothing. -/
theorem Follows.freshId_bind {k : Nat → Reader β} (h : ∀ id, Follows (k id) f) : Follows (freshId >>= k) f := by
  refine ⟨(h 0).viable, fun s hs => ?_⟩
  have hrest := (h s.nextId).followsAt { s with nextId := s.nextId + 1 } hs
  constructor
  · intro x t hx
    obtain ⟨used, huses, hderives⟩ := hrest.ok hx
    exact ⟨used, ⟨huses.rest, huses.endOffset⟩, hderives⟩
  · intro e t he
    obtain ⟨used, huses, hfails⟩ := hrest.error he
    exact ⟨used, ⟨huses.rest, huses.endOffset⟩, hfails⟩

/-- Behind a token that is next, whatever it is. -/
theorem FollowsAt.advance_bind {k : Unit → Reader β} {tok : Token} (hs : s.Proper) (hcurrent : s.current = some tok)
    (htok : Derives f [tok]) (hk : Follows (k ()) g) : FollowsAt (advance >>= k) (.seq f g) s := by
  have huses := ReaderState.Uses.of_current hcurrent
  have hrest := hk.followsAt s.advance (huses.proper hs)
  constructor
  · intro x t hx
    obtain ⟨used, huses', hderives⟩ := hrest.ok hx
    exact ⟨tok :: used, huses.trans huses', .seq htok hderives⟩
  · intro e t he
    obtain ⟨used, huses', hviable, hblames⟩ := hrest.error he
    exact ⟨tok :: used, huses.trans huses', .seq_right htok hviable, hblames⟩

theorem FollowsAt.advance_of_peek {k : Unit → Reader β} {text : String} (hs : s.Proper) (hpeek : s.peek text = true)
    (hk : Follows (k ()) g) : FollowsAt (advance >>= k) (.seq (.text text) g) s := by
  obtain ⟨tok, hcurrent, htext⟩ := ReaderState.peek_iff.mp hpeek
  exact .advance_bind hs hcurrent (.text htext) hk

/-- A text that is eaten decides between two forms. -/
theorem Follows.choice {a b : Reader β} (text : String) (ha : Follows a f) (hb : Follows b g) :
    Follows (eat text >>= fun found => if found = true then a else b) (.alt (.seq (.text text) f) g) := by
  refine ⟨Viable.second hb.viable, fun s hs => ?_⟩
  by_cases hpeek : s.peek text = true
  · have hfollows : FollowsAt (advance >>= fun _ => a) (.seq (.text text) f) s := .advance_of_peek hs hpeek ha
    exact (hfollows.mono fun _ => .first).congr (by rw [eat_choice, if_pos hpeek]; rfl)
  · exact ((hb.followsAt s hs).mono fun _ => .second).congr (by rw [eat_choice, if_neg hpeek])

theorem follows_expect {text : String} (h : text ∈ marks ∨ text ∈ keywords) :
    Follows (expect text) (.text text) := by
  refine ⟨viable_text h, fun s _ => ?_⟩
  by_cases hpeek : s.peek text = true
  · obtain ⟨tok, hcurrent, htext⟩ := ReaderState.peek_iff.mp hpeek
    exact .of_ok (x := ()) (expect_eq_ok.mpr ⟨hpeek, rfl⟩) (.of_current hcurrent) (.text htext)
  · have hfail : FollowsAt (unexpected (.oneOf [text]) : Reader Unit) (.text text) s := .unexpected (viable_text h)
    exact hfail.congr (by rw [expect_apply, if_neg hpeek, unexpected_apply])

theorem follows_identifier : Follows identifier .identifier := by
  refine ⟨viable_identifier, fun s _ => ?_⟩
  have hfail : FollowsAt (unexpected .identifier : Reader String) .identifier s := .unexpected viable_identifier
  cases hcurrent : s.current with
  | none => exact hfail.congr (by rw [identifier, Reader.get_bind, hcurrent])
  | some tok =>
    by_cases hname : tok.kind = .identifier ∧ (!isKeyword tok.text) = true
    · have hword : isKeyword tok.text = false := by simpa using hname.2
      exact .of_ok (identifier_eq_ok.mpr ⟨tok, hcurrent, hname.1, hword, rfl, rfl⟩) (.of_current hcurrent)
        (.identifier hname.1 hword)
    · refine hfail.congr ?_
      rw [identifier, Reader.get_bind, hcurrent]
      exact congrFun (if_neg hname) s

/-! ## §6 Sequences -/

/-- A loop consumes phrases in a row, provided that each item is one where the loop goes on. -/
theorem follows_many {more : ReaderState → Bool} {item : Reader α}
    (hitem : ∀ s : ReaderState, s.Proper → more s = true → FollowsAt item f s) (n : Nat) :
    Follows (many more item n) (.many f) := by
  refine ⟨viable_none, fun s hs => ?_⟩
  have hstop : ∀ s, FollowsAt (pure ([] : List α)) (.many f) s := by
    refine fun s => (FollowsAt.pure []).mono fun ts hts => ?_
    cases hts
    exact .stop
  induction n generalizing s with
  | zero => exact hstop s
  | succ n ih =>
    by_cases hmore : more s = true
    · have hrest (x : α) (t : ReaderState) (ht : t.Proper) :
          FollowsAt (many more item n >>= fun xs => pure (x :: xs)) (.many f) t := by
        have hlast := FollowsAt.bind ht (ih t ht) (Derives.viable .empty)
          fun xs u _ => FollowsAt.pure (s := u) (x :: xs)
        exact hlast.mono fun _ => Derives.seq_empty
      refine ((FollowsAt.bind hs (hitem s hs hmore) viable_none hrest).mono fun _ => Derives.many_of_some).congr ?_
      rw [many, Reader.get_bind, if_pos hmore]
    · exact (hstop s).congr (by rw [many, Reader.get_bind, if_neg hmore])

theorem follows_moreItems {item : Reader α} [Inhabited α] {closing : String} (hitem : Follows item f)
    (hclosing : closing ∈ marks) (n : Nat) :
    Follows (moreItems item closing n) (.seq (.many (.seq (.text ",") f)) (.text closing)) := by
  have hend : Viable (.seq (.many (.seq (.text ",") f)) (.text closing)) [] :=
    viable_none.seq (viable_text (.inl hclosing))
  induction n with
  | zero => exact ⟨hend, fun s _ => .unexpected hend⟩
  | succ n ih =>
    have hnext : Follows (item >>= fun x => moreItems item closing n >>= fun xs => pure (x :: xs)) _ :=
      hitem.bind fun x => ih.last fun xs => Follows.pure (x :: xs)
    have hclose : Follows (eat closing >>= fun found => if found = true then pure []
        else unexpected (.oneOf [",", closing]) : Reader (List α)) (.text closing) := by
      refine ⟨viable_text (.inl hclosing), fun s hs => ?_⟩
      by_cases hpeek : s.peek closing = true
      · obtain ⟨tok, hcurrent, htext⟩ := ReaderState.peek_iff.mp hpeek
        exact .of_ok (by rw [eat_choice, if_pos hpeek]; rfl) (.of_current hcurrent) (.text htext)
      · exact (FollowsAt.unexpected (viable_text (.inl hclosing))).congr (by rw [eat_choice, if_neg hpeek])
    rw [moreItems]
    refine (hnext.choice _ hclose).mono fun ts hts => ?_
    cases hts with
    | first h => exact h.regroup.regroup.map_first fun _ => Derives.many_of_some
    | second h => exact .seq .stop h

theorem follows_commaSeparated {item : Reader α} [Inhabited α] {closing : String} (hitem : Follows item f)
    (hclosing : closing ∈ marks) (n : Nat) :
    Follows (commaSeparated item closing n) (.seq (Form.optional f.separated) (.text closing)) := by
  have hitems : Follows (item >>= fun x => moreItems item closing n >>= fun xs => pure (x :: xs)) _ :=
    hitem.bind fun x => (follows_moreItems hitem hclosing n).last fun xs => Follows.pure (x :: xs)
  refine ⟨viable_absent.seq (viable_text (.inl hclosing)), fun s hs => ?_⟩
  by_cases hpeek : s.peek closing = true
  · obtain ⟨tok, hcurrent, htext⟩ := ReaderState.peek_iff.mp hpeek
    refine .of_ok (x := []) (by rw [commaSeparated, eat_choice, if_pos hpeek]; rfl) (.of_current hcurrent) ?_
    exact .seq (.second .empty) (.text htext)
  · refine ((hitems.followsAt s hs).mono fun ts hts => ?_).congr (by rw [commaSeparated, eat_choice, if_neg hpeek])
    exact hts.regroup.map_first fun _ => .first

/-! ## §7 Expressions -/

theorem follows_chain {level : Nat} {operand : Reader Expr} {rule : Rule} {first : String} {others : List String}
    (hops : ∀ op : Operator, op.level = level ↔ op.symbol ∈ first :: others)
    (hoperand : Follows operand (.rule rule)) (n : Nat) (left : Expr) : Follows (chain level operand n left)
      (.many (.seq (Form.oneOf (.text first) (others.map .text)) (.rule rule))) := by
  induction n generalizing left with
  | zero => exact ⟨viable_none, fun s _ => .of_ok rfl (.refl s) .stop⟩
  | succ n ih =>
    refine ⟨viable_none, fun s hs => ?_⟩
    -- A chain stops before what is no operator, and before operators of other levels.
    have hstop {f : Form} (h : operator? level s = .ok none s) :
        FollowsAt (chain level operand (n + 1) left) (.many f) s :=
      .of_ok (by rw [chain, bind_of_ok h]; rfl) (.refl s) .stop
    cases hfound : s.operator? with
    | none => exact hstop (by rw [operator?_apply, hfound])
    | some op =>
      by_cases hlevel : op.level = level
      · obtain ⟨tok, hcurrent, hkind, htext⟩ := ReaderState.operator?_eq_some_iff.mp hfound
        have hsymbol : [tok].map Token.symbol = [.word .operator op.symbol] := by
          rw [List.map_singleton, Token.symbol_of_kind (Or.inr hkind), hkind, htext]
        have htok := writes_oneOf ((hops op).mp hlevel) .operator [tok] hsymbol
        have hrest := hoperand.bind fun right => Follows.freshId_bind fun id =>
          ih (.binary ⟨id, left.offset⟩ op left right)
        have hmore := FollowsAt.advance_bind (k := fun _ => _) hs hcurrent htok hrest
        refine (hmore.mono fun _ hts => hts.regroup.many_of_some).congr ?_
        have hread : operator? level s = .ok (some op) s.advance := by
          rw [operator?_apply, hfound]
          exact if_pos hlevel
        rw [chain, bind_of_ok hread]
        rfl
      · refine hstop ?_
        rw [operator?_apply, hfound]
        exact if_neg hlevel

/-- Operands of one level and the operators between them. -/
theorem follows_operands {level : Nat} {operand : Reader Expr} (h : 1 ≤ level) (h' : level ≤ 4)
    (hoperand : Follows operand (.rule (levelRule (level + 1)))) (n : Nat) :
    Follows (operands level operand n) (.rule (levelRule level)) := by
  obtain ⟨first, others, hproduction, hops⟩ := production_levelRule h h'
  have hall : Follows (operands level operand n) (production (levelRule level)) := by
    rw [hproduction]
    exact hoperand.bind fun left => follows_chain hops hoperand n left
  exact hall.mono fun _ => .rule

/-- A literal whose value is known is one token. -/
theorem followsAt_literal {tok : Token} (hcurrent : s.current = some tok) (htok : Derives f [tok]) (offset : Nat)
    (value : Literal) : FollowsAt (literal offset value) f s := by
  have huses := ReaderState.Uses.of_current hcurrent
  exact .of_ok rfl (t := { s.advance with nextId := s.nextId + 1 }) ⟨huses.rest, huses.endOffset⟩ htok

section Expression

variable {expression : Reader Expr} (hexpression : Follows expression (.rule .expression)) (n : Nat)

include hexpression

/-- What begins with a name: a call, an element or the name alone. -/
theorem follows_named : Follows (named expression n) (.seq .identifier
    (.alt (.seq (.text "(") (.seq (Form.optional (Form.separated (.rule .expression))) (.text ")")))
      (.alt (.seq (.text "[") (.seq (.rule .expression) (.text "]"))) .empty))) := by
  refine Follows.offset_bind fun start => follows_identifier.bind fun name => ?_
  refine Follows.choice _ ?_ (Follows.choice _ ?_ ?_)
  · exact (follows_commaSeparated hexpression (by decide) n).last fun _ => Follows.freshId_bind fun _ => .pure _
  · exact hexpression.bind fun _ => (follows_expect (by decide)).last fun _ => Follows.freshId_bind fun _ => .pure _
  · exact Follows.freshId_bind fun _ => .pure _

theorem follows_primary : Follows (primary expression n) (.rule .primary) := by
  have hviable : Viable (.rule .primary) [] :=
    ⟨[⟨.identifier, "NIL", 0⟩], List.forall_mem_singleton.mpr (proper_of_mem_keywords (by decide)),
      writes_primary_literal .nil _ rfl⟩
  refine ⟨hviable, fun s hs => ?_⟩
  have hfail : FollowsAt (unexpected .expression : Reader Expr) (.rule .primary) s := .unexpected hviable
  cases hcurrent : s.current with
  | none => exact hfail.congr (by rw [primary, Reader.get_bind, hcurrent])
  | some tok =>
    have htok : tok.Proper := hs.current hcurrent
    have hliteral {value : Literal} (h : tok.symbol = value.symbol) :
        FollowsAt (literal tok.offset value) (.rule .primary) s :=
      followsAt_literal hcurrent (writes_primary_literal value [tok] (by rw [List.map_singleton, h])) _ _
    -- The kind of the next token decides: a word, a parenthesis or a literal.
    cases hkind : tok.kind with
    | identifier =>
      cases hvalue : constantOf? tok.text with
      | some value =>
        obtain ⟨hword, hsymbol⟩ := keyword_of_constantOf? hvalue
        refine (hliteral ((htok.readable.symbol_of_mem_keywords hword).trans hsymbol.symm)).congr ?_
        simp [primary, hcurrent, hkind, hvalue]
      | none =>
        by_cases hword : isKeyword tok.text = true
        · exact hfail.congr (by simp [primary, hcurrent, hkind, hvalue, hword])
        · refine (((follows_named hexpression n).followsAt s hs).mono fun ts hts => ?_).congr ?_
          · cases hts with
            | seq hname h =>
              cases h with
              | first h => exact .primary (.second (.first (.seq hname (.first h))))
              | second h =>
                cases h with
                | first h => exact .primary (.second (.second (.seq hname h)))
                | second h => exact .primary (.second (.first (.seq hname (.second h))))
          · simp [primary, hcurrent, hkind, hvalue, hword]
    | operator =>
      by_cases hopen : tok.text = "("
      · have hinner : Follows (expression >>= fun inner => expect ")" >>= fun _ => freshId >>= fun id =>
            pure (Expr.group ⟨id, tok.offset⟩ inner)) _ :=
          hexpression.bind fun _ => (follows_expect (by decide)).last fun _ => Follows.freshId_bind fun _ => .pure _
        have hgroup := FollowsAt.advance_bind (k := fun _ => _) hs hcurrent (.text hopen) hinner
        refine (hgroup.mono fun ts hts => .primary (.first hts)).congr ?_
        simp only [primary, Reader.get_bind, hcurrent, hkind, hopen]
        rfl
      · exact hfail.congr (by simp [primary, hcurrent, hkind, hopen])
    | integer | decimal | character | string =>
      -- The text of a proper token denotes a literal.
      obtain ⟨value, hvalue⟩ := htok.exists_literal (by rw [hkind]; decide)
      refine (hliteral (symbol_of_literalOf? hvalue).symm).congr ?_
      simp [primary, hcurrent, hkind, hvalue]

theorem follows_logical : Follows (logical expression n) (.rule .logical) := by
  have hmultiplicative : Follows (multiplicative expression n) (.rule .multiplicative) :=
    follows_operands (by decide) (by decide) (follows_primary hexpression n) n
  have hadditive : Follows (additive expression n) (.rule .additive) :=
    follows_operands (by decide) (by decide) hmultiplicative n
  have hcomparison : Follows (comparison expression n) (.rule .comparison) :=
    follows_operands (by decide) (by decide) hadditive n
  exact follows_operands (by decide) (by decide) hcomparison n

end Expression

theorem follows_expressionWithin (n : Nat) : Follows (expressionWithin n) (.rule .expression) := by
  induction n with
  | zero => exact ⟨viable_expression, fun s _ => .unexpected viable_expression⟩
  | succ n ih => exact (follows_logical ih n).mono fun _ h => .rule h

/-! ## §8 Statements -/

theorem follows_typeName? : Follows typeName? typing :=
  Follows.choice _ (follows_identifier.last fun name => .pure (some name)) (.pure none)

section Statement

variable {expression : Reader Expr} (hexpression : Follows expression (.rule .expression))
  {statement : Reader Statement} (hstatement : Follows statement (.rule .statement))

include hexpression in
theorem follows_initializer? : Follows (initializer? expression) initial :=
  Follows.choice _ (hexpression.last fun value => .pure (some value)) (.pure none)

/-- Reading the statements of a block fails right away, or there is none, or a first one is read. -/
theorem statements_cases (terminators : List String) (n : Nat) (s : ReaderState) :
    (∃ expected, statements statement terminators n s = (unexpected expected : Reader (List Statement)) s) ∨
      statements statement terminators n s = (pure [] : Reader (List Statement)) s ∨
      ∃ m, n = m + 1 ∧ statements statement terminators n s =
        (statement >>= fun first => statements statement terminators m >>= fun rest => pure (first :: rest)) s := by
  cases n with
  | zero => exact .inl ⟨_, rfl⟩
  | succ m =>
    rw [statements, Reader.get_bind]
    split_ifs
    · exact .inr (.inl rfl)
    · exact .inl ⟨_, rfl⟩
    · exact .inr (.inr ⟨m, rfl, rfl⟩)

include hstatement in
theorem follows_statements (terminators : List String) (n : Nat) :
    Follows (statements statement terminators n) (.many (.rule .statement)) := by
  refine ⟨viable_none, fun s hs => ?_⟩
  induction n using Nat.strong_induction_on generalizing s with
  | _ n ih =>
    rcases statements_cases terminators n s with ⟨expected, h⟩ | h | ⟨m, rfl, h⟩
    · exact (FollowsAt.unexpected viable_none).congr h
    · exact (FollowsAt.of_ok rfl (.refl s) .stop).congr h
    · have hrest : Follows (statements statement terminators m) _ := ⟨viable_none, ih m (Nat.lt_succ_self m)⟩
      have hnext := hstatement.bind fun first => hrest.last fun rest => Follows.pure (first :: rest)
      exact ((hnext.followsAt s hs).mono fun _ => Derives.many_of_some).congr h

include hstatement in
/-- A block without statements fails where the first one should stand. -/
theorem follows_block (terminators : List String) (n : Nat) :
    Follows (block statement terminators n) (.rule .block) := by
  have hviable : Viable (.rule .block) [] := Viable.rule (viable_statement.seq viable_none)
  refine ⟨hviable, fun s hs => ?_⟩
  rcases statements_cases terminators n s with ⟨expected, h⟩ | h | ⟨m, rfl, h⟩
  · exact (FollowsAt.unexpected hviable).congr (bind_congr h)
  · refine FollowsAt.congr ⟨fun hx => ?_, fun he => ?_⟩ (bind_congr h)
    · cases hx
    · obtain ⟨rfl, rfl⟩ := EStateM.Result.error.inj he
      exact ⟨[], .refl s, hviable, rfl, fun _ _ => GrammarError.noConfusion⟩
  · have hnext := hstatement.bind fun first =>
      (follows_statements hstatement terminators m).last fun rest => Follows.pure (first :: rest)
    have hsome : FollowsAt _ (.rule .block) s := (hnext.followsAt s hs).mono fun _ hts => .rule hts
    refine hsome.congr ((bind_congr h).trans ?_)
    simp only [bind_assoc, pure_bind, List.isEmpty_cons, Bool.false_eq_true, if_false]

include hexpression in
theorem follows_declaration (start : Nat) :
    Follows (declaration expression start) (Form.row [.identifier, typing, initial, .text ";"]) :=
  Follows.freshId_bind fun _ => follows_identifier.bind fun _ => follows_typeName?.bind fun _ =>
    (follows_initializer? hexpression).bind fun _ => (follows_expect (by decide)).last fun _ => .pure _

include hexpression in
theorem follows_returned (start : Nat) :
    Follows (returned expression start) (Form.row [.rule .expression, .text ";"]) :=
  hexpression.bind fun _ => (follows_expect (by decide)).last fun _ => .pure _

include hexpression in
theorem follows_effect (start : Nat) :
    Follows (effect expression start) (Form.row [.rule .expression, initial, .text ";"]) := by
  have hstored (value : Expr) : Follows (expression >>= fun stored => expect ";" >>= fun _ =>
      pure (Statement.assignment start value stored)) _ :=
    hexpression.bind fun _ => (follows_expect (by decide)).last fun _ => .pure _
  have halone (value : Expr) : Follows (expect ";" >>= fun _ => pure (Statement.expression start value)) _ :=
    (follows_expect (by decide)).last fun _ => .pure _
  exact (hexpression.bind fun value => (hstored value).choice _ (halone value)).mono
    fun _ hts => hts.map_second fun _ => Derives.optional

include hexpression hstatement in
theorem follows_loop (n start : Nat) : Follows (loop expression statement n start)
    (Form.row [.rule .expression, .text "DO", .rule .block, .text "END"]) :=
  hexpression.bind fun _ => (follows_expect (by decide)).bind fun _ => (follows_block hstatement _ n).bind fun _ =>
    (follows_expect (by decide)).last fun _ => .pure _

include hexpression hstatement in
theorem follows_conditional (n start : Nat) : Follows (conditional expression statement n start)
    (Form.row [.rule .expression, .text "DO", .rule .block, Form.optional (Form.row [.text "ELSE", .rule .block]),
      .text "END"]) := by
  have hend (condition : Expr) (onTrue onFalse : List Statement) : Follows (expect "END" >>= fun _ =>
      pure (Statement.conditional start condition onTrue onFalse)) (.text "END") :=
    (follows_expect (by decide)).last fun _ => .pure _
  have helse (condition : Expr) (onTrue : List Statement) := Follows.choice "ELSE"
    ((follows_block hstatement ["END"] n).bind fun onFalse => hend condition onTrue onFalse) (hend condition onTrue [])
  have hdo : Follows (expect "DO") (.text "DO") := follows_expect (by decide)
  have hall := hexpression.bind fun condition => hdo.bind fun _ =>
    (follows_block hstatement ["ELSE", "END"] n).bind fun onTrue => helse condition onTrue
  exact hall.mono fun _ hts => hts.map_second fun _ => Derives.map_second fun _ => Derives.map_second fun _ =>
    Derives.optional

include hexpression hstatement in
theorem followsAt_valueCase (n : Nat) {s : ReaderState} (hs : s.Proper) (hcase : s.peek "CASE" = true) :
    FollowsAt (valueCase expression statement n) valueArm s := by
  have hbody : Follows (expression >>= fun value => expect ":" >>= fun _ =>
      block statement ["CASE", "DEFAULT", "END"] n >>= fun body => pure (Case.mk s.offset (some value) body)) _ :=
    hexpression.bind fun _ => (follows_expect (by decide)).bind fun _ =>
      (follows_block hstatement _ n).last fun _ => .pure _
  exact (FollowsAt.advance_of_peek (k := fun _ => _) hs hcase hbody).congr rfl

include hexpression hstatement in
theorem follows_switch (n start : Nat) : Follows (switch expression statement n start)
    (.seq (.rule .expression) (.seq (.many valueArm) defaultArm)) := by
  refine hexpression.bind fun condition => ?_
  refine (follows_many (fun s hs hcase => followsAt_valueCase hexpression hstatement n hs hcase) n).bind fun cases => ?_
  refine Follows.offset_bind fun defaultStart => (follows_expect (by decide)).bind fun _ => ?_
  exact (follows_block hstatement _ n).bind fun _ => (follows_expect (by decide)).last fun _ => .pure _

include hexpression hstatement in
/-- A word that is eaten decides between the alternatives of a statement. -/
theorem follows_statementOf (n : Nat) : Follows (statementOf expression statement n) (.rule .statement) := by
  have hall : Follows (statementOf expression statement n) (production .statement) :=
    Follows.offset_bind fun start => (follows_declaration hexpression start).choice _ <|
      (follows_switch hexpression hstatement n start).choice _ <|
      (follows_conditional hexpression hstatement n start).choice _ <|
      (follows_loop hexpression hstatement n start).choice _ <|
      (follows_returned hexpression start).choice _ (follows_effect hexpression start)
  exact hall.mono fun _ hts => .rule hts

end Statement

theorem follows_statementWithin (n : Nat) : Follows (statementWithin n) (.rule .statement) := by
  induction n with
  | zero => exact ⟨viable_statement, fun s _ => .unexpected viable_statement⟩
  | succ n ih => exact follows_statementOf (follows_expressionWithin n) ih n

/-! ## §9 Globals and functions -/

section Global

variable {expression : Reader Expr} (hexpression : Follows expression (.rule .expression)) (n : Nat) (node : Node)

include hexpression

theorem follows_listLiteral : Follows (listLiteral expression n)
    (Form.row [.text "[", Form.separated (.rule .expression), .text "]"]) := by
  have hmore : ∀ s : ReaderState, s.Proper → s.peek "," = true →
      FollowsAt (advance *> expression) (.seq (.text ",") (.rule .expression)) s :=
    fun s hs hcomma => (FollowsAt.advance_of_peek (k := fun _ => expression) hs hcomma hexpression).congr rfl
  have hall : Follows (listLiteral expression n) (Form.row [.text "[", .rule .expression,
      .many (.seq (.text ",") (.rule .expression)), .text "]"]) :=
    Follows.offset_bind fun _ => Follows.freshId_bind fun _ => (follows_expect (by decide)).bind fun _ =>
      hexpression.bind fun _ => (follows_many hmore n).bind fun _ => (follows_expect (by decide)).last fun _ => .pure _
  exact hall.mono fun _ hts => hts.map_second fun _ => Derives.regroup

theorem follows_listGlobal : Follows (listGlobal expression n node) (Form.row [.identifier, .text ":", .identifier,
    .text "=", .text "[", Form.separated (.rule .expression), .text "]"]) :=
  follows_identifier.bind fun _ => (follows_expect (by decide)).bind fun _ => follows_identifier.bind fun _ =>
    (follows_expect (by decide)).bind fun _ => (follows_listLiteral hexpression n).last fun _ => .pure _

theorem follows_variableGlobal :
    Follows (variableGlobal expression node) (Form.row [.identifier, typing, initial]) :=
  follows_identifier.bind fun _ => follows_typeName?.bind fun _ =>
    (follows_initializer? hexpression).last fun _ => .pure _

theorem follows_constantGlobal : Follows (constantGlobal expression node) (production .immutable) :=
  (follows_expect (by decide)).bind fun _ => follows_identifier.bind fun _ => follows_typeName?.bind fun _ =>
    (follows_expect (by decide)).bind fun _ => hexpression.last fun _ => .pure _

theorem follows_globalBody : Follows (globalBody expression n node)
    (Form.oneOf (.rule .list) [.rule .mutable, .rule .immutable]) := by
  have hall := (follows_listGlobal hexpression n node).choice "LIST"
    ((follows_variableGlobal hexpression node).choice "VAR" (follows_constantGlobal hexpression node))
  refine hall.mono fun ts hts => ?_
  cases hts with
  | first h => exact .first (.rule h)
  | second h =>
    cases h with
    | first h => exact .second (.first (.rule h))
    | second h => exact .second (.second (.rule h))

theorem follows_globalOf : Follows (globalOf expression n) (.rule .global) := by
  have hall : Follows (globalOf expression n) (production .global) :=
    Follows.offset_bind fun _ => Follows.freshId_bind fun _ => (follows_globalBody hexpression n _).bind fun _ =>
      (follows_expect (by decide)).last fun _ => .pure _
  exact hall.mono fun _ hts => .rule hts

end Global

theorem follows_parameter : Follows parameter (Form.row [.identifier, .text ":", .identifier]) :=
  Follows.freshId_bind fun _ => Follows.offset_bind fun _ => follows_identifier.bind fun _ =>
    (follows_expect (by decide)).bind fun _ => follows_identifier.last fun _ => .pure _

theorem follows_functionOf {statement : Reader Statement} (hstatement : Follows statement (.rule .statement))
    (n : Nat) : Follows (functionOf statement n) (.rule .function) := by
  have hparameters := follows_commaSeparated follows_parameter (show ")" ∈ marks by decide) n
  have hall : Follows (functionOf statement n) (Form.row [.text "FUN", .identifier, .text "(",
      .seq (Form.optional (Form.separated (Form.row [.identifier, .text ":", .identifier]))) (.text ")"),
      typing, .text "DO", .rule .block, .text "END"]) :=
    Follows.offset_bind fun _ => Follows.freshId_bind fun _ => (follows_expect (by decide)).bind fun _ =>
      follows_identifier.bind fun _ => (follows_expect (by decide)).bind fun _ => hparameters.bind fun _ =>
      follows_typeName?.bind fun _ => (follows_expect (by decide)).bind fun _ =>
      (follows_block hstatement _ n).bind fun _ => (follows_expect (by decide)).last fun _ => .pure _
  exact hall.mono fun _ hts => .rule <| hts.map_second fun _ => Derives.map_second fun _ => Derives.map_second fun _ =>
    Derives.ungroup

/-! ## §10 Programs -/

/-- Globals and functions in a row; whether there is a function is only seen at the end. -/
theorem follows_programOf {global : Reader Global} {function : Reader Function}
    (hglobal : Follows global (.rule .global)) (hfunction : Follows function (.rule .function)) (n : Nat) :
    Follows (programOf global function n) (.seq (.many (.rule .global)) (.many (.rule .function))) := by
  have hglobals : Follows (many (·.peekOneOf ["LIST", "VAR", "VAL"]) global n) (.many (.rule .global)) :=
    follows_many (fun s hs _ => hglobal.followsAt s hs) n
  have hfunctions : Follows (many (·.peek "FUN") function n) (.many (.rule .function)) :=
    follows_many (fun s hs _ => hfunction.followsAt s hs) n
  refine hglobals.bind fun globals => hfunctions.last fun functions => ?_
  refine Follows.get_bind (fun s _ => ?_) (Derives.viable .empty)
  split_ifs
  · exact .unexpected (Derives.viable .empty)
  · refine ⟨fun hx => ?_, fun he => ?_⟩
    · cases hx
    · obtain ⟨rfl, rfl⟩ := EStateM.Result.error.inj he
      exact ⟨[], .refl s, Derives.viable .empty, rfl, fun _ _ => GrammarError.noConfusion⟩
  · exact .pure _

end Reader

/-- The tokens before a grammar error begin a program, and the error is about the token behind them or the end. -/
theorem viable_of_parse_error {ts : List Token} {e : GrammarError} (hts : ∀ t ∈ ts, t.Proper)
    (h : parse ts = .error e) : ∃ used t, Reader.program (ReaderState.ofTokens ts) = .error e t ∧
      (ReaderState.ofTokens ts).Uses used t ∧ Ebnf.Viable (.rule .source) used ∧ e.Blames t := by
  unfold parse Reader.parse EStateM.run at h
  cases hread : Reader.program (ReaderState.ofTokens ts) with
  | ok p t => simp [hread] at h
  | error e' t =>
    obtain rfl : e' = e := by simpa [hread] using h
    have hfunction := Reader.follows_functionOf (Reader.follows_statementWithin (ts.length + 1)) (ts.length + 1)
    have hglobal := Reader.follows_globalOf (Reader.follows_expressionWithin (ts.length + 1)) (ts.length + 1)
    obtain ⟨used, huses, hviable, hblames⟩ :=
      ((Reader.follows_programOf hglobal hfunction (ts.length + 1)).followsAt (.ofTokens ts) hts).error hread
    exact ⟨used, t, rfl, huses, (hviable.seq_some hfunction.viable).mono fun _ hts => .rule hts, hblames⟩

/-- Tokens that begin a program are completed to one that is accepted. -/
theorem exists_parse_of_viable {ts : List Token} (hts : ∀ t ∈ ts, t.Proper) (h : Ebnf.Viable (.rule .source) ts) :
    ∃ more p, parse (ts ++ more) = .ok p := by
  obtain ⟨more, hmore, hderives⟩ := h
  have hproper := List.forall_mem_append.mpr ⟨hts, hmore⟩
  obtain ⟨p, hwf, hsymbols⟩ := hderives.meaning hproper
  obtain ⟨p', hp, -⟩ := parse_of_symbols (fun t ht => (hproper t ht).readable) hwf hsymbols
  exact ⟨more, p', hp⟩

end BlockLang
